import BlockDuel.Link.Bench
import BlockDuel.Proofs.Link.Queue

/-!
A link at work, with all that comes and goes. The owner calls, the reader and the writer take their
turns, time passes, and the peer writes, reads and leaves, in any order; and at any time the stream may
turn bad. What went over the stream is on record. The calls and turns that a link is given are summed up
in one relation, on which everything that holds along a run is proved.
-/
namespace BlockDuel
namespace Link
open Wire

/-- Something that happens at a link or to its stream. -/
inductive Event
  | call (c : Call)
  /-- The reader goes on from one wait to the next, if it can. -/
  | reader
  | writer
  | passes (ms : Nat)
  /-- Octets of the peer come in. -/
  | arrives (bs : Bytes)
  /-- The peer takes up to `n` octets. -/
  | fetches (n : Nat)
  /-- The peer closes its end. -/
  | leaves
  /-- From now on the stream misbehaves. -/
  | breaks (s : Script)
  deriving DecidableEq

/-- The message that is passed to `send`. -/
def Event.message? : Event → Option Message
  | call (.send m) => some m
  | _ => none

/-- The messages that a call queues. -/
def posts (l : Link) : Call → List Message
  | .send m => if l.isOpen then [m] else []
  | _ => []

namespace Bench

/-- The octets that the reader's next turn takes off the stream. -/
def reads (b : Bench) : Bytes :=
  match b.link.reader with
  | .stopped => []
  | .waiting _ =>
    if b.link.phase = .closed then []
    else
      match b.carrier.read with
      | .chunk bs _ => bs
      | _ => []

/-- The octets that the stream takes in the writer's next turn. -/
def puts (b : Bench) : Bytes :=
  match b.link.writer with
  | .writing bs _ =>
    if b.link.phase = .closed then []
    else
      match b.carrier.write bs with
      | .took n _ => bs.take n
      | _ => []
  | _ => []

end Bench

/-- A link at its stream, and what went over it so far. -/
structure Passage where
  bench : Bench
  /-- The messages that were queued, in the order of the calls. -/
  posted : List Message
  /-- What the peer wrote. -/
  arrived : Bytes
  /-- What the link read. -/
  heard : Bytes
  /-- What the stream took from the link. -/
  said : Bytes
  /-- What the peer took of it. -/
  fetched : Bytes

namespace Passage

/-- A new link over a pipe that holds `capacity` octets each way. -/
def opened (id : PlayerId) (limit : Nat) (announce : Bool) (capacity now : Nat) : Passage :=
  ⟨⟨spawn id limit announce, .pipe ⟨capacity, [], [], false, false⟩, now⟩, [], [], [], [], []⟩

def link (p : Passage) : Link := p.bench.link

def act (p : Passage) : Event → Passage
  | .call c =>
    { p with bench := p.bench.call fun l => c.run l, posted := p.posted ++ p.link.posts c }
  | .reader => { p with bench := p.bench.readerTurn.getD p.bench, heard := p.heard ++ p.bench.reads }
  | .writer => { p with bench := p.bench.writerTurn.getD p.bench, said := p.said ++ p.bench.puts }
  | .passes ms => { p with bench := p.bench.advance ms }
  | .arrives bs =>
    match p.bench.carrier with
    | .pipe q =>
      if q.peerGone then p
      else { p with bench := p.bench.putToLink bs, arrived := p.arrived ++ bs }
    | .script _ => p
  | .fetches n =>
    match p.bench.peerTake n with
    | .chunk bs rest => { p with bench := rest, fetched := p.fetched ++ bs }
    | _ => p
  | .leaves => { p with bench := p.bench.peerClose }
  | .breaks s => { p with bench := { p.bench with carrier := .script s } }

def run (p : Passage) (es : List Event) : Passage := es.foldl act p

/-- How the close of a ticket went, once that is known. -/
def outcome? (p : Passage) (ticket : Nat) : Option Outcome := (p.link.tickets[ticket]?).join

theorem run_concat (p : Passage) (es : List Event) (e : Event) :
    p.run (es ++ [e]) = (p.run es).act e := by
  simp [run]

theorem run_append (p : Passage) (es es' : List Event) :
    p.run (es ++ es') = (p.run es).run es' := by
  simp [run]

end Passage

/-- The turns that can come next, with the octets that are read and those that the stream takes. -/
inductive Turn.Due (l : Link) : Turn → Bytes → Bytes → Prop
  | readerStops (closed : l.phase = .closed) : Due l .readerStops [] []
  | received {pending : Bytes} (waiting : l.reader = .waiting pending) (live : l.phase ≠ .closed)
      (bs : Bytes) : Due l (.received bs) bs []
  | readEnded {pending : Bytes} (waiting : l.reader = .waiting pending)
      (live : l.phase ≠ .closed) : Due l .readEnded [] []
  | takeOrder {o : Order} {rest : List Order} (idle : l.writer = .idle) (live : l.phase ≠ .closed)
      (queue : l.queue = o :: rest) (now : Nat) : Due l (.takeOrder now) [] []
  | wrote {bs : Bytes} {deadline : Nat} (writing : l.writer = .writing bs deadline)
      (live : l.phase ≠ .closed) (n : Nat) : Due l (.wrote n) [] (bs.take n)
  | writeFailed {bs : Bytes} {deadline : Nat} (writing : l.writer = .writing bs deadline)
      (live : l.phase ≠ .closed) : Due l .writeFailed [] []
  | closeEnded {ticket deadline : Nat} (closing : l.writer = .closing ticket deadline)
      (o : Outcome) : Due l (.closeEnded o) [] []
  | writerStops (closed : l.phase = .closed) (unreached : ∀ t d, l.writer ≠ .closing t d) :
      Due l .writerStops [] []

/-- What can become of a link in one go, with the octets that it reads, those that the stream takes, and
the messages that are queued. -/
inductive Step (l : Link) : Bytes → Bytes → List Message → Link → Prop
  | rests : Step l [] [] [] l
  | call (c : Call) : Step l [] [] (l.posts c) (c.run l)
  | turn {t : Turn} {bs out : Bytes} (due : t.Due l bs out) : Step l bs out [] (t.run l)

/-- The tickets of the closes that are still queued. -/
def unreached (q : List Order) : List Nat :=
  q.filterMap fun
    | .close t => some t
    | .frame _ => none

/-- The tickets are told that their closes were not carried out, unless they know better. -/
def abandon (ts : List Nat) (tickets : List (Option Outcome)) : List (Option Outcome) :=
  ts.foldl (fun tickets t => tickets.modify t fun r => r.or (some (.error .closed))) tickets

theorem writerStops_eq (l : Link) :
    l.writerStops =
      { l with queue := [], writer := .stopped, tickets := abandon (unreached l.queue) l.tickets } := by
  have hsettle (ts : List Nat) (l : Link) :
      ts.foldl (fun l t => l.settleTicket t (.error .closed)) l =
        { l with tickets := abandon ts l.tickets } := by
    induction ts generalizing l with
    | nil => rfl
    | cons t ts ih => exact ih (l.settleTicket t (.error .closed))
  exact hsettle (unreached l.queue) { l with queue := [], writer := .stopped }

namespace Carrier

/-- If there is a pipe now, `bs` was taken from the one end of it and `out` was put in at the other. -/
def Moves (c c' : Carrier) (bs out : Bytes) : Prop :=
  ∀ q', c' = .pipe q' →
    ∃ q, c = .pipe q ∧ q.toLink = bs ++ q'.toLink ∧ q'.toPeer = q.toPeer ++ out

variable {c c' : Carrier} {bs : Bytes} {n : Nat}

theorem Moves.rests (c : Carrier) : c.Moves c [] [] := fun q hq => ⟨q, hq, rfl, by simp⟩

theorem read_moves (h : c.read = .chunk bs c') : c.Moves c' bs [] := by
  rintro q' rfl
  cases c with
  | pipe q =>
    unfold read at h
    dsimp only at h
    split at h
    · split at h <;> cases h
    · next b rest hq =>
      cases h
      refine ⟨q, rfl, ?_, by simp⟩
      rw [hq]
      exact (List.take_append_drop readChunk (b :: rest)).symm
  | script s =>
    unfold read at h
    dsimp only at h
    split at h
    · split at h <;> cases h
    · cases h

theorem write_moves (h : c.write bs = .took n c') : c.Moves c' [] (bs.take n) := by
  rintro q' rfl
  cases c with
  | pipe q =>
    unfold write at h
    dsimp only at h
    split at h
    · cases h
    · split at h
      · cases h
      · cases h
        refine ⟨q, rfl, rfl, ?_⟩
        rw [List.length_take, ← List.take_take, List.take_length]
  | script s =>
    unfold write at h
    dsimp only at h
    split at h <;> cases h

theorem close_moves (h : c.close = .done c') : c.Moves c' [] [] := by
  rintro q' rfl
  cases c with
  | pipe q =>
    cases h
    exact ⟨q, rfl, rfl, by simp⟩
  | script s =>
    unfold close at h
    dsimp only at h
    split at h
    · cases h
    · split at h <;> cases h

end Carrier

namespace Bench

variable {b b' : Bench}

theorem readerTurn_due (h : b.readerTurn = some b') :
    ∃ t : Turn, t.Due b.link b.reads [] ∧ b'.link = t.run b.link ∧
      b.carrier.Moves b'.carrier b.reads [] := by
  unfold readerTurn at h
  split at h
  · cases h
  · next pending hr =>
    split at h
    · next hclosed =>
      cases h
      have hreads : b.reads = [] := by simp [reads, hr, hclosed]
      rw [hreads]
      exact ⟨.readerStops, .readerStops hclosed, rfl, .rests _⟩
    · next hlive =>
      split at h
      · next bs rest hread =>
        cases h
        have hreads : b.reads = bs := by simp [reads, hr, hlive, hread]
        rw [hreads]
        exact ⟨.received bs, .received hr hlive bs, rfl, Carrier.read_moves hread⟩
      · next hread =>
        cases h
        have hreads : b.reads = [] := by simp [reads, hr, hlive, hread]
        rw [hreads]
        exact ⟨.readEnded, .readEnded hr hlive, rfl, .rests _⟩
      · cases h

theorem writerTurn_due (h : b.writerTurn = some b') :
    ∃ t : Turn, t.Due b.link [] b.puts ∧ b'.link = t.run b.link ∧
      b.carrier.Moves b'.carrier [] b.puts := by
  unfold writerTurn at h
  split at h
  · cases h
  · next hw =>
    have hputs : b.puts = [] := by simp [puts, hw]
    rw [hputs]
    split at h
    · next hclosed =>
      cases h
      exact ⟨.writerStops, .writerStops hclosed (by simp [hw]), rfl, .rests _⟩
    · next hlive =>
      split at h
      · cases h
      · next o rest hq =>
        cases h
        exact ⟨.takeOrder b.now, .takeOrder hw hlive hq b.now, rfl, .rests _⟩
  · next bs deadline hw =>
    split at h
    · next hclosed =>
      cases h
      have hputs : b.puts = [] := by simp [puts, hw, hclosed]
      rw [hputs]
      exact ⟨.writerStops, .writerStops hclosed (by simp [hw]), rfl, .rests _⟩
    · next hlive =>
      split at h
      · next n rest hwrite =>
        cases h
        have hputs : b.puts = bs.take n := by simp [puts, hw, hlive, hwrite]
        rw [hputs]
        exact ⟨.wrote n, .wrote hw hlive n, rfl, Carrier.write_moves hwrite⟩
      · next hwrite =>
        cases h
        have hputs : b.puts = [] := by simp [puts, hw, hlive, hwrite]
        rw [hputs]
        exact ⟨.writeFailed, .writeFailed hw hlive, rfl, .rests _⟩
      · next hwrite =>
        have hputs : b.puts = [] := by simp [puts, hw, hlive, hwrite]
        rw [hputs]
        split at h
        · cases h
          exact ⟨.writeFailed, .writeFailed hw hlive, rfl, .rests _⟩
        · cases h
  · next t deadline hw =>
    have hputs : b.puts = [] := by simp [puts, hw]
    rw [hputs]
    split at h
    · next hclose =>
      cases h
      exact ⟨.closeEnded (.ok ()), .closeEnded hw _, rfl, Carrier.close_moves hclose⟩
    · cases h
      exact ⟨.closeEnded _, .closeEnded hw _, rfl, .rests _⟩
    · split at h
      · cases h
        exact ⟨.closeEnded _, .closeEnded hw _, rfl, .rests _⟩
      · cases h

/-- A reader that has to wait reads nothing. -/
theorem reads_of_waiting (h : b.readerTurn = none) : b.reads = [] := by
  unfold readerTurn at h
  unfold reads
  cases hr : b.link.reader with
  | stopped => rfl
  | waiting pending =>
    rw [hr] at h
    dsimp only at h ⊢
    split at h
    · cases h
    · next hlive =>
      rw [if_neg hlive]
      cases hread : b.carrier.read with
      | waits | ended => rfl
      | chunk =>
        rw [hread] at h
        cases h

theorem puts_of_waiting (h : b.writerTurn = none) : b.puts = [] := by
  unfold writerTurn at h
  unfold puts
  split at h
  · next hw => simp [hw]
  · next hw => simp [hw]
  · next hw =>
    split at h
    · cases h
    · next hlive =>
      split at h
      · cases h
      · cases h
      · next hwrite => simp [hw, hlive, hwrite]
  · next hw => simp [hw]

/-- The peer takes the octets that have waited longest, and touches nothing else. -/
theorem peerTake_chunk {most : Nat} {bs : Bytes} (h : b.peerTake most = .chunk bs b') :
    ∃ q rest, b.carrier = .pipe q ∧ q.toPeer = bs ++ rest ∧
      b' = { b with carrier := .pipe { q with toPeer := rest } } := by
  unfold peerTake at h
  split at h
  · next q hq =>
    split at h
    · split at h <;> cases h
    · cases h
      exact ⟨q, q.toPeer.drop most, hq, (List.take_append_drop most q.toPeer).symm, rfl⟩
  · cases h

end Bench

namespace Passage

variable {p : Passage}

/-- The link is the same, and nothing went through it. -/
structure Rests (p p' : Passage) : Prop where
  link : p'.link = p.link
  heard : p'.heard = p.heard
  said : p'.said = p.said
  posted : p'.posted = p.posted

theorem Rests.step {p' : Passage} (h : p.Rests p') :
    ∃ bs out ms, Step p.link bs out ms p'.link ∧ p'.heard = p.heard ++ bs ∧
      p'.said = p.said ++ out ∧ p'.posted = p.posted ++ ms := by
  refine ⟨[], [], [], ?_, by simp [h.heard], by simp [h.said], by simp [h.posted]⟩
  rw [h.link]
  exact .rests

/-- The peer and the clock ask nothing of a link. -/
theorem act_rests (p : Passage) {e : Event} (hc : ∀ c, e ≠ .call c) (hr : e ≠ .reader)
    (hw : e ≠ .writer) : p.Rests (p.act e) := by
  cases e with
  | call c => exact absurd rfl (hc c)
  | reader => exact absurd rfl hr
  | writer => exact absurd rfl hw
  | passes ms => exact ⟨rfl, rfl, rfl, rfl⟩
  | arrives bs =>
    unfold act
    dsimp only
    split
    · next q hq =>
      split
      · exact ⟨rfl, rfl, rfl, rfl⟩
      · exact ⟨by simp [link, Bench.putToLink, hq], rfl, rfl, rfl⟩
    · exact ⟨rfl, rfl, rfl, rfl⟩
  | fetches n =>
    unfold act
    dsimp only
    split
    · next bs rest hfetch =>
      obtain ⟨q, left, -, -, rfl⟩ := Bench.peerTake_chunk hfetch
      exact ⟨rfl, rfl, rfl, rfl⟩
    · exact ⟨rfl, rfl, rfl, rfl⟩
  | leaves =>
    unfold act Bench.peerClose
    dsimp only
    split <;> exact ⟨rfl, rfl, rfl, rfl⟩
  | breaks s => exact ⟨rfl, rfl, rfl, rfl⟩

/-- Whatever happens, a link is given one call or one turn that is due, or nothing. -/
theorem act_step (p : Passage) (e : Event) :
    ∃ bs out ms, Step p.link bs out ms (p.act e).link ∧ (p.act e).heard = p.heard ++ bs ∧
      (p.act e).said = p.said ++ out ∧ (p.act e).posted = p.posted ++ ms := by
  cases e with
  | call c => exact ⟨[], [], p.link.posts c, .call c, by simp [act], by simp [act], rfl⟩
  | reader =>
    cases hturn : p.bench.readerTurn with
    | none =>
      apply Rests.step
      constructor <;> simp [act, link, hturn, Bench.reads_of_waiting hturn]
    | some b' =>
      obtain ⟨t, due, hlink, -⟩ := Bench.readerTurn_due hturn
      refine ⟨p.bench.reads, [], [], ?_, rfl, by simp [act], by simp [act]⟩
      have hact : (p.act .reader).link = b'.link := by simp [act, link, hturn]
      rw [hact, hlink]
      exact .turn due
  | writer =>
    cases hturn : p.bench.writerTurn with
    | none =>
      apply Rests.step
      constructor <;> simp [act, link, hturn, Bench.puts_of_waiting hturn]
    | some b' =>
      obtain ⟨t, due, hlink, -⟩ := Bench.writerTurn_due hturn
      refine ⟨[], p.bench.puts, [], ?_, by simp [act], rfl, by simp [act]⟩
      have hact : (p.act .writer).link = b'.link := by simp [act, link, hturn]
      rw [hact, hlink]
      exact .turn due
  | passes | arrives | fetches | leaves | breaks =>
    exact (p.act_rests (by simp) (by simp) (by simp)).step

/-- What every step keeps up holds after any run. -/
theorem run_induction {P : Link → Bytes → Bytes → List Message → Prop}
    (steps : ∀ l heard said posted bs out ms l', P l heard said posted → Step l bs out ms l' →
      P l' (heard ++ bs) (said ++ out) (posted ++ ms))
    (start : P p.link p.heard p.said p.posted) (es : List Event) :
    P (p.run es).link (p.run es).heard (p.run es).said (p.run es).posted := by
  induction es generalizing p with
  | nil => exact start
  | cons e es ih =>
    obtain ⟨bs, out, ms, hstep, hheard, hsaid, hposted⟩ := p.act_step e
    have hnext := steps _ _ _ _ _ _ _ _ start hstep
    rw [← hheard, ← hsaid, ← hposted] at hnext
    exact ih hnext

/-- If the stream is a pipe, it holds just what was put in at one end and not taken at the other. -/
def Holds (p : Passage) : Prop :=
  ∀ q, p.bench.carrier = .pipe q → p.heard ++ q.toLink = p.arrived ∧ p.fetched ++ q.toPeer = p.said

theorem Holds.turn (h : p.Holds) {b' : Bench} {bs out : Bytes}
    (moves : p.bench.carrier.Moves b'.carrier bs out) :
    Holds { p with bench := b', heard := p.heard ++ bs, said := p.said ++ out } := by
  intro q' hq'
  obtain ⟨q, hq, htoLink, htoPeer⟩ := moves q' hq'
  obtain ⟨hin, hout⟩ := h q hq
  constructor
  · change p.heard ++ bs ++ q'.toLink = p.arrived
    rw [List.append_assoc, ← htoLink]
    exact hin
  · change p.fetched ++ q'.toPeer = p.said ++ out
    rw [htoPeer, ← List.append_assoc, hout]

theorem Holds.act (h : p.Holds) (e : Event) : (p.act e).Holds := by
  cases e with
  | call c => exact h
  | reader =>
    unfold Passage.act
    cases hturn : p.bench.readerTurn with
    | none =>
      dsimp only [Option.getD_none]
      rw [Bench.reads_of_waiting hturn, List.append_nil]
      exact h
    | some b' =>
      obtain ⟨-, -, -, hmoves⟩ := Bench.readerTurn_due hturn
      have hnext := h.turn hmoves
      rw [List.append_nil] at hnext
      exact hnext
  | writer =>
    unfold Passage.act
    cases hturn : p.bench.writerTurn with
    | none =>
      dsimp only [Option.getD_none]
      rw [Bench.puts_of_waiting hturn, List.append_nil]
      exact h
    | some b' =>
      obtain ⟨-, -, -, hmoves⟩ := Bench.writerTurn_due hturn
      have hnext := h.turn hmoves
      rw [List.append_nil] at hnext
      exact hnext
  | passes ms => exact h
  | arrives bs =>
    unfold Passage.act
    dsimp only
    split
    · next q hq =>
      split
      · exact h
      · intro q' hq'
        obtain ⟨hin, hout⟩ := h q hq
        have hput : q' = { q with toLink := q.toLink ++ bs } := by
          simpa [Bench.putToLink, hq] using hq'.symm
        subst hput
        refine ⟨?_, hout⟩
        change p.heard ++ (q.toLink ++ bs) = p.arrived ++ bs
        rw [← List.append_assoc, hin]
    · exact h
  | fetches n =>
    unfold Passage.act
    dsimp only
    split
    · next bs b' hfetch =>
      obtain ⟨q, rest, hq, htoPeer, rfl⟩ := Bench.peerTake_chunk hfetch
      obtain ⟨hin, hout⟩ := h q hq
      intro q' hq'
      cases hq'
      refine ⟨hin, ?_⟩
      change p.fetched ++ bs ++ rest = p.said
      rw [List.append_assoc, ← htoPeer]
      exact hout
    · exact h
  | leaves =>
    unfold Passage.act Bench.peerClose
    dsimp only
    split
    · next q hq =>
      intro q' hq'
      cases hq'
      exact h q hq
    · exact h
  | breaks s =>
    intro q' hq'
    cases hq'

theorem Holds.run (h : p.Holds) (es : List Event) : (p.run es).Holds := by
  induction es generalizing p with
  | nil => exact h
  | cons e es ih => exact ih (h.act e)

theorem opened_holds (id : PlayerId) (limit : Nat) (announce : Bool) (capacity now : Nat) :
    (opened id limit announce capacity now).Holds := by
  intro q hq
  cases hq
  exact ⟨rfl, rfl⟩

end Passage
end Link
end BlockDuel
