import BlockDuel.Link.Carrier

/-!
A link at work over a stream in memory, under a clock that moves only when told to. Between two calls
the reader and the writer take turns until both wait. Every turn lowers a weight, so that always ends.
-/
namespace BlockDuel.Link

/-- A link, its stream and its clock in milliseconds. -/
structure Bench where
  link : Link
  carrier : Carrier
  now : Nat

namespace Bench

/-- The reader's next turn, if it need not wait. -/
def readerTurn (b : Bench) : Option Bench :=
  match b.link.reader with
  | .stopped => none
  | .waiting _ =>
    if b.link.phase = .closed then some { b with link := b.link.readerStops }
    else
      match b.carrier.read with
      | .chunk bs rest => some { b with link := b.link.received bs, carrier := rest }
      | .ended => some { b with link := b.link.readEnded }
      | .waits => none

/-- The writer's next turn, if it need not wait. A stream that hangs in its final close is not
interrupted, only timed out. -/
def writerTurn (b : Bench) : Option Bench :=
  match b.link.writer with
  | .stopped => none
  | .idle =>
    if b.link.phase = .closed then some { b with link := b.link.writerStops }
    else
      match b.link.queue with
      | [] => none
      | _ :: _ => some { b with link := b.link.takeOrder b.now }
  | .writing bs deadline =>
    if b.link.phase = .closed then some { b with link := b.link.writerStops }
    else
      match b.carrier.write bs with
      | .took n rest => some { b with link := b.link.wrote n, carrier := rest }
      | .failed => some { b with link := b.link.writeFailed }
      | .waits => if deadline ≤ b.now then some { b with link := b.link.writeFailed } else none
  | .closing _ deadline =>
    match b.carrier.close with
    | .done rest => some { b with link := b.link.closeEnded (.ok ()), carrier := rest }
    | .failed => some { b with link := b.link.closeEnded (.error (.io "")) }
    | .waits =>
      if deadline ≤ b.now then
        some { b with link := b.link.closeEnded (.error (.writeTimeout (.ofMillis b.link.limit))) }
      else none

/-- The next turn; the reader comes first. -/
def turn (b : Bench) : Option Bench := b.readerTurn.or b.writerTurn

def readerWeight : Reader → Nat
  | .waiting _ => 1
  | .stopped => 0

def orderWeight : Order → Nat
  | .frame bs => 2 * bs.length + 2
  | .close _ => 2

def writerWeight : Writer → Nat
  | .idle => 1
  | .writing bs _ => 2 * bs.length + 2
  | .closing _ _ => 2
  | .stopped => 0

def queueWeight : List Order → Nat
  | [] => 0
  | o :: q => orderWeight o + queueWeight q

def weight (b : Bench) : Nat :=
  readerWeight b.link.reader + b.carrier.incoming + queueWeight b.link.queue +
    writerWeight b.link.writer + b.carrier.outgoing

theorem settleTickets_parts (ts : List Nat) (o : Outcome) (l : Link) :
    let l' := ts.foldl (fun l t => l.settleTicket t o) l
    l'.reader = l.reader ∧ l'.writer = l.writer ∧ l'.queue = l.queue := by
  induction ts generalizing l with
  | nil => exact ⟨rfl, rfl, rfl⟩
  | cons t ts ih => exact ih (l.settleTicket t o)

theorem writerStops_parts (l : Link) :
    l.writerStops.reader = l.reader ∧ l.writerStops.writer = .stopped ∧
      l.writerStops.queue = [] :=
  settleTickets_parts _ _ _

theorem received_parts (l : Link) (bs : Bytes) :
    (l.received bs).writer = l.writer ∧ (l.received bs).queue = l.queue ∧
      readerWeight (l.received bs).reader ≤ readerWeight l.reader := by
  unfold received
  split
  · exact ⟨rfl, rfl, Nat.le_refl _⟩
  · next h =>
    dsimp only
    split <;> simp [finish, readerWeight, h]

theorem readEnded_parts (l : Link) (p : Bytes) (h : l.reader = .waiting p) :
    l.readEnded.reader = .stopped ∧ l.readEnded.writer = l.writer ∧
      l.readEnded.queue = l.queue := by
  simp [readEnded, h, finish]

theorem readerTurn_weight {b b' : Bench} (h : b.readerTurn = some b') : b'.weight < b.weight := by
  unfold readerTurn at h
  split at h
  · cases h
  · next p hr =>
    split at h
    · cases h
      simp [weight, readerStops, readerWeight, hr]
    · split at h
      · next bs rest hread =>
        cases h
        obtain ⟨hw, hq, hle⟩ := received_parts b.link bs
        obtain ⟨hi, ho⟩ := Carrier.read_chunk hread
        simp only [weight, hw, hq]
        omega
      · cases h
        obtain ⟨h1, h2, h3⟩ := readEnded_parts b.link p hr
        simp only [weight, h1, h2, h3, hr, readerWeight]
        omega
      · cases h

theorem stopped_weight (b : Bench) (l : Link) (hr : l.reader = b.link.reader)
    (hw : 0 < writerWeight b.link.writer) :
    { b with link := l.writerStops }.weight < b.weight := by
  obtain ⟨h1, h2, h3⟩ := writerStops_parts l
  have h0 : writerWeight Writer.stopped = 0 := rfl
  simp only [weight, h1, h2, h3, hr, h0, queueWeight]
  omega

theorem writerTurn_weight {b b' : Bench} (h : b.writerTurn = some b') : b'.weight < b.weight := by
  unfold writerTurn at h
  split at h
  · cases h
  · next hw =>
    split at h
    · cases h
      exact stopped_weight b b.link rfl (by simp [hw, writerWeight])
    · split at h
      · cases h
      · next o q hq =>
        cases h
        cases o with
        | frame bs =>
          simp only [weight, takeOrder, hw, hq, queueWeight, orderWeight, writerWeight]
          omega
        | close t =>
          simp only [weight, takeOrder, hw, hq, queueWeight, orderWeight, writerWeight]
          omega
  · next bs deadline hw =>
    have hfail : b.link.writeFailed = b.link.finish.writerStops := by simp [writeFailed, hw]
    have hpos : 0 < writerWeight b.link.writer := by simp [hw, writerWeight]
    split at h
    · cases h
      exact stopped_weight b b.link rfl hpos
    · split at h
      · next n rest htook =>
        cases h
        obtain ⟨hle, hz, hi, ho⟩ := Carrier.write_took htook
        have hparts : (b.link.wrote n).reader = b.link.reader ∧
            (b.link.wrote n).queue = b.link.queue ∧
            writerWeight (b.link.wrote n).writer + n < writerWeight b.link.writer := by
          unfold wrote
          simp only [hw]
          split
          · next hd =>
            have := congrArg List.length hd
            simp only [List.length_drop, List.length_nil] at this
            exact ⟨rfl, rfl, by simp [writerWeight]; omega⟩
          · next hd =>
            refine ⟨rfl, rfl, ?_⟩
            have hpos : n ≠ 0 := by
              intro h0
              apply hd
              rw [h0, hz h0]
              rfl
            simp only [writerWeight, List.length_drop]
            omega
        obtain ⟨p1, p2, p3⟩ := hparts
        simp only [weight, p1, p2, hi]
        omega
      · cases h
        rw [hfail]
        exact stopped_weight b b.link.finish rfl hpos
      · split at h
        · cases h
          rw [hfail]
          exact stopped_weight b b.link.finish rfl hpos
        · cases h
  · next t deadline hw =>
    have hpos : 0 < writerWeight b.link.writer := by simp [hw, writerWeight]
    have hend (o : Outcome) :
        b.link.closeEnded o = (b.link.finish.settleTicket t o).writerStops := by
      simp [closeEnded, hw]
    split at h
    · next rest hdone =>
      cases h
      obtain ⟨hi, ho⟩ := Carrier.close_done hdone
      rw [hend]
      have := stopped_weight { b with carrier := rest } (b.link.finish.settleTicket t (.ok ())) rfl
        hpos
      simp only [weight, hi, ho] at this ⊢
      exact this
    · cases h
      rw [hend]
      exact stopped_weight b _ rfl hpos
    · split at h
      · cases h
        rw [hend]
        exact stopped_weight b _ rfl hpos
      · cases h

/-- Every turn leaves less to do. -/
theorem turn_weight {b b' : Bench} (h : b.turn = some b') : b'.weight < b.weight := by
  unfold turn at h
  rcases Option.or_eq_some_iff.mp h with h | ⟨_, h⟩
  · exact readerTurn_weight h
  · exact writerTurn_weight h

def settle (b : Bench) : Bench :=
  match h : b.turn with
  | none => b
  | some b' =>
    have := turn_weight h
    settle b'
termination_by b.weight

theorem settle_weight (b : Bench) : b.settle.weight ≤ b.weight := by
  fun_induction settle b with
  | case1 => exact Nat.le_refl _
  | case2 b b' _ h ih => exact Nat.le_trans ih (Nat.le_of_lt h)

def call (b : Bench) (f : Link → Link) : Bench := { b with link := f b.link }

def advance (b : Bench) (ms : Nat) : Bench := { b with now := b.now + ms }

def deadline? (b : Bench) : Option Nat :=
  match b.link.writer with
  | .writing _ d => some d
  | .closing _ d => some d
  | _ => none

/-- Waits for a ticket. If nothing else can move, time jumps to the writer's deadline. -/
def await (b : Bench) (ticket : Nat) : Option Outcome × Bench :=
  let b := b.settle
  let b := match b.link.tickets[ticket]?, b.deadline? with
    | some none, some d => { b with now := max b.now d }.settle
    | _, _ => b
  ((b.link.tickets[ticket]?).join, b)

def peerClose (b : Bench) : Bench :=
  match b.carrier with
  | .pipe p => { b with carrier := .pipe { p with peerGone := true } }
  | .script _ => b

/-- Octets that the peer may still put on the stream at once, if there is anyone to read them. -/
def peerSpace? (b : Bench) : Option Nat :=
  match b.carrier with
  | .pipe p => if p.peerGone ∨ b.link.isGone then none else some (p.capacity - p.toLink.length)
  | .script _ => none

def putToLink (b : Bench) (bs : Bytes) : Bench :=
  match b.carrier with
  | .pipe p => { b with carrier := .pipe { p with toLink := p.toLink ++ bs } }
  | .script _ => b

/-- The peer writes, as much at a time as the stream has space for. Tells whether all went in. -/
def peerWrite (b : Bench) (bs : Bytes) : Bool × Bench :=
  if bs = [] then (true, b)
  else
    match b.peerSpace? with
    | none => (false, b)
    | some 0 => (false, b)
    | some (space + 1) =>
      ((b.putToLink (bs.take (space + 1))).settle).peerWrite (bs.drop (space + 1))
termination_by bs.length
decreasing_by
  have : bs.length ≠ 0 := fun h => by simp_all
  simp only [List.length_drop]
  omega

inductive PeerRead
  | chunk (bs : Bytes) (rest : Bench)
  /-- The link's direction is closed and empty. -/
  | ended
  | nothing

/-- The peer reads at most `most` octets that are there. -/
def peerTake (b : Bench) (most : Nat) : PeerRead :=
  match b.carrier with
  | .pipe p =>
    match p.toPeer with
    | [] => if p.ended ∨ b.link.isGone ∨ p.peerGone then .ended else .nothing
    | bs => .chunk (bs.take most) { b with carrier := .pipe { p with toPeer := bs.drop most } }
  | .script _ => .ended

theorem peerTake_weight {b rest : Bench} {most : Nat} {bs : Bytes} (hm : 0 < most)
    (h : b.peerTake most = .chunk bs rest) : rest.weight < b.weight := by
  unfold peerTake at h
  split at h
  · next p hp =>
    split at h
    · split at h <;> cases h
    · next hne =>
      cases h
      have : p.toPeer.length ≠ 0 := fun h0 => hne (List.length_eq_zero_iff.mp h0)
      simp only [weight, hp, Carrier.incoming, Carrier.outgoing, List.length_drop]
      omega
  · cases h

/-- The peer reads until nothing more comes or it has `most` octets. Tells the octets in the pieces
in which they came, and whether the end was reached. -/
def peerRead (b : Bench) (most : Nat) : List Bytes × Bool × Bench :=
  if hm : 0 < most then
    let b' := b.settle
    match h : b'.peerTake most with
    | .chunk bs rest =>
      have : rest.weight < b.weight :=
        Nat.lt_of_lt_of_le (peerTake_weight hm h) (settle_weight b)
      let (more, isEnd, b) := rest.peerRead (most - bs.length)
      (bs :: more, isEnd, b)
    | .ended => ([], true, b')
    | .nothing => ([], false, b')
  else ([], false, b)
termination_by b.weight

/-- Takes what the owner has been told since the last time. -/
def collect (b : Bench) : List Notice × Bench :=
  (b.link.notices, b.call fun l => { l with notices := [] })

end Bench
end BlockDuel.Link
