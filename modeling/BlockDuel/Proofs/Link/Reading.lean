import BlockDuel.Proofs.Link.Lifecycle

/-!
What is read. However the octets of the peer come in, the owner is told of the messages at the front of
them, as far as they are whole frames and no further: up to a header that no frame has, up to a frame that
breaks off, or up to where the link was closed.
-/
namespace BlockDuel

namespace Wire

/-- The messages of the longest run of whole frames at the front of a stream. -/
structure Front (bs : Bytes) (ms : List Message) : Prop where
  fits : ∀ m ∈ ms, m.Fits
  isPrefix : ms.flatMap encode <+: bs
  longest : ∀ ms', (∀ m ∈ ms', m.Fits) → ms'.flatMap encode <+: bs → ms' <+: ms

/-- A header that no frame has: it declares too much, or its kind is unknown. -/
def BadHeader (h : Bytes) : Prop :=
  h.length = headerLength ∧ (maxPayload < declaredOf h ∨ ∀ k : Kind, k.code ≠ tagOf h)

variable {bs h : Bytes} {ms : List Message}

/-- Whatever comes behind whole frames is read as if it came alone. -/
theorem drain_behind (hf : ∀ m ∈ ms, m.Fits) (tail : Bytes) :
    drain (ms.flatMap encode ++ tail) =
      { drain tail with messages := ms ++ (drain tail).messages } := by
  rw [drain_append, drain_flatMap_encode hf]
  rfl

theorem front_drain (bs : Bytes) : Front bs (drain bs).messages := by
  refine ⟨fits_of_drain bs, ⟨(drain bs).rest, encode_of_drain bs⟩, ?_⟩
  rintro ms' hf ⟨tail, rfl⟩
  rw [drain_behind hf]
  exact List.prefix_append _ _

theorem scan_badHeader (hb : BadHeader h) (tail : Bytes) : ∃ f, scan (h ++ tail) = .fault f := by
  obtain ⟨hlen, hbad⟩ := hb
  have hh := header?_of_length (Nat.le_of_eq hlen.symm)
  have hscan : ∃ f, scan h = .fault f := by
    by_cases hm : maxPayload < declaredOf h
    · exact ⟨_, (Seen.oversize hh hm).eq⟩
    · have hk := Kind.ofCode?_eq_none_iff.mpr (hbad.resolve_left hm)
      exact ⟨_, (Seen.stray hh (Nat.le_of_not_lt hm) hk).eq⟩
  obtain ⟨f, hf⟩ := hscan
  exact ⟨f, scan_fault_more hf tail⟩

/-- Nothing behind a bad header is ever read as a message. -/
theorem drain_badHeader (hf : ∀ m ∈ ms, m.Fits) (hb : BadHeader h)
    (hbs : ms.flatMap encode ++ h <+: bs) :
    (drain bs).messages = ms ∧ ∃ f, (drain bs).fault? = some f := by
  obtain ⟨tail, rfl⟩ := hbs
  obtain ⟨f, hscan⟩ := scan_badHeader hb tail
  rw [List.append_assoc, drain_behind hf, drain_fault hscan]
  exact ⟨List.append_nil ms, f, rfl⟩

end Wire

namespace Link
open Wire

variable {id : PlayerId} {announce : Bool} {l l' : Link} {heard bs out : Bytes} {ms : List Message}

/-- A link that is closed stays closed and reads nothing. -/
theorem Step.of_closed (hs : Step l bs out ms l') (closed : l.phase = .closed) :
    l'.phase = .closed ∧ bs = [] := by
  have hrank := hs.rank_le
  rw [closed] at hrank
  refine ⟨?_, ?_⟩
  · cases hp : l'.phase with
    | closed => rfl
    | connecting | opened | closing =>
      rw [hp] at hrank
      exact absurd hrank (by decide)
  · cases hs with
    | rests => rfl
    | call c => rfl
    | turn due =>
      cases due with
      | received _ live => exact absurd closed live
      | _ => rfl

/-- A fault in what was read ends the link. -/
theorem Reports.closed_of_fault (h : l.Reports id announce heard) {f : Wire.Fault}
    (hfault : (drain heard).fault? = some f) : l.phase = .closed := by
  cases hr : l.reader with
  | stopped => exact h.stopped hr
  | waiting pending =>
    rw [(h.waiting pending hr).2] at hfault
    cases hfault

/-- The reader of a link that is not closed waits. -/
theorem Reports.waits (h : l.Reports id announce heard) (live : l.phase ≠ .closed) :
    ∃ pending, l.reader = .waiting pending := by
  cases hr : l.reader with
  | stopped => exact absurd (h.stopped hr) live
  | waiting pending => exact ⟨pending, rfl⟩

/-- A pipe has ended when it is empty and the peer has left. -/
theorem Carrier.read_ended {q : Pipe} (h : (Carrier.pipe q).read = .ended) : q.toLink = [] := by
  unfold Carrier.read at h
  dsimp only at h
  split at h
  · assumption
  · cases h

namespace Bench

variable {b : Bench} {pending : Bytes}

theorem readerTurn_ended (hr : b.link.reader = .waiting pending) (live : b.link.phase ≠ .closed)
    (ended : b.carrier.read = .ended) : b.readerTurn = some { b with link := b.link.readEnded } := by
  unfold readerTurn
  rw [hr]
  simp only [if_neg live, ended]

/-- A reader waits only at an empty pipe. -/
theorem empty_of_waiting {q : Pipe} (hr : b.link.reader = .waiting pending)
    (hq : b.carrier = .pipe q) (waits : b.readerTurn = none) : q.toLink = [] := by
  unfold readerTurn Carrier.read at waits
  rw [hr, hq] at waits
  dsimp only at waits
  split at waits
  · cases waits
  · cases hin : q.toLink with
    | nil => rfl
    | cons b bs =>
      rw [hin] at waits
      cases waits

end Bench

namespace Passage

variable {p : Passage}

theorem run_of_closed (closed : p.link.phase = .closed) (es : List Event) :
    (p.run es).link.phase = .closed ∧ (p.run es).heard = p.heard := by
  apply run_induction (p := p) (P := fun l heard _ _ => l.phase = .closed ∧ heard = p.heard) ?_
    ⟨closed, rfl⟩
  rintro l heard _ _ bs _ _ l' ⟨hclosed, rfl⟩ hs
  obtain ⟨hclosed', rfl⟩ := hs.of_closed hclosed
  exact ⟨hclosed', List.append_nil _⟩

/-- The end of the stream is read as such. -/
theorem act_ended (hr : p.link.Reports id announce heard) (live : p.link.phase ≠ .closed)
    (ended : p.bench.carrier.read = .ended) :
    (p.act .reader).link.phase = .closed ∧ (p.act .reader).heard = p.heard := by
  obtain ⟨pending, hpending⟩ := hr.waits live
  have hturn := Bench.readerTurn_ended hpending live ended
  constructor
  · change (p.bench.readerTurn.getD p.bench).link.phase = .closed
    rw [hturn]
    change p.bench.link.readEnded.phase = .closed
    unfold readEnded
    rw [show p.bench.link.reader = .waiting pending from hpending]
    exact finish_phase
  · have hreads : p.bench.reads = [] := by
      unfold Bench.reads
      rw [show p.bench.link.reader = .waiting pending from hpending]
      simp [ended]
    change p.heard ++ p.bench.reads = p.heard
    rw [hreads, List.append_nil]

/-- The owner is told of the messages of just those whole frames that stand at the front of what was read
until the link closed. Behind a bad header there are no more messages and the link is closed; and a closed
link reads and tells nothing. What was read is the beginning of what the peer wrote, and all of it if the
stream ends or the reader has to wait; and the end of the stream closes the link, without another
message. -/
theorem delivery (id : PlayerId) (limit : Nat) (announce : Bool) (capacity now : Nat)
    (es : List Event) :
    let p := (opened id limit announce capacity now).run es
    ∃ ms, Front p.heard ms ∧
      p.link.notices = (if announce then [.connected id] else []) ++ ms.map (.message id) ++
        (if p.link.phase = .closed then [.lost id] else []) ∧
      (∀ ms' h, (∀ m ∈ ms', m.Fits) → BadHeader h → ms'.flatMap encode ++ h <+: p.heard →
        ms = ms' ∧ p.link.phase = .closed) ∧
      (p.link.phase = .closed → ∀ es',
        (p.run es').heard = p.heard ∧ (p.run es').link.notices = p.link.notices) ∧
      ∀ q, p.bench.carrier = .pipe q →
        p.heard ++ q.toLink = p.arrived ∧
        (p.link.phase ≠ .closed → p.bench.readerTurn = none → p.heard = p.arrived) ∧
        (p.link.phase ≠ .closed → p.bench.carrier.read = .ended → p.heard = p.arrived ∧
          (p.act .reader).link.notices = p.link.notices ++ [.lost id]) := by
  intro p
  have hreports : p.link.Reports id announce p.heard :=
    run_reports (spawn_reports id limit announce) es
  have hpipe : p.Holds := (opened_holds id limit announce capacity now).run es
  -- a link that closes without reading on tells of the end and of nothing else
  have hclosing {p' : Passage} (h : p'.link.Reports id announce p'.heard)
      (closed : p'.link.phase = .closed) (same : p'.heard = p.heard) :
      p'.link.notices = greeting id announce ++ (drain p.heard).messages.map (.message id) ++
        [.lost id] := by
    rw [h.tells.notices, farewell_closed closed, same]
  refine ⟨(drain p.heard).messages, front_drain p.heard, hreports.tells.notices, ?_, ?_, ?_⟩
  · intro ms' h hf hb hbs
    obtain ⟨hms, f, hfault⟩ := drain_badHeader hf hb hbs
    exact ⟨hms, hreports.closed_of_fault hfault⟩
  · intro closed es'
    obtain ⟨hclosed, hheard⟩ := run_of_closed closed es'
    refine ⟨hheard, ?_⟩
    rw [hclosing (run_reports hreports es') hclosed hheard, hclosing hreports closed rfl]
  · intro q hq
    obtain ⟨hin, -⟩ := hpipe q hq
    have hall (hempty : q.toLink = []) : p.heard = p.arrived := by
      rw [← hin, hempty, List.append_nil]
    refine ⟨hin, ?_, ?_⟩
    · intro live waits
      obtain ⟨pending, hr⟩ := hreports.waits live
      exact hall (Bench.empty_of_waiting hr hq waits)
    · intro live ended
      obtain ⟨hclosed, hheard⟩ := act_ended hreports live ended
      have hnext : (p.act .reader).link.Reports id announce (p.act .reader).heard :=
        run_reports hreports [.reader]
      rw [hq] at ended
      refine ⟨hall (Carrier.read_ended ended), ?_⟩
      rw [hclosing hnext hclosed hheard, hreports.tells.notices, farewell_live live,
        List.append_nil]

/-- The peer writes a seed, a header of a kind that there is not, and a ping: the owner is told of the seed
and of the end, and of nothing that is written later. If the peer leaves without a word, the owner is told
of the end alone. -/
theorem unread_behind_stray_header :
    let stray : Bytes := [99, 0, 0, 0, 2, 0, 0, 0]
    let p := (opened 7 1000 false 64 0).run
      [.arrives (encode (.bagSeed 42) ++ stray ++ encode .serverPing), .reader]
    BadHeader stray ∧ p.link.notices = [.message 7 (.bagSeed 42), .lost 7] ∧
      (p.run [.arrives (encode .serverPing), .reader]).link.notices = p.link.notices ∧
      (((opened 7 1000 false 64 0).run [.leaves]).act .reader).link.notices = [.lost 7] := by
  intro stray p
  obtain ⟨ms, -, hnotices, hbad, hclosed, -⟩ := delivery 7 1000 false 64 0
    [.arrives (encode (.bagSeed 42) ++ stray ++ encode .serverPing), .reader]
  obtain ⟨-, -, -, -, -, hpipe⟩ := delivery 7 1000 false 64 0 [.leaves]
  have hstray : BadHeader stray := ⟨rfl, .inr (Kind.ofCode?_eq_none_iff.mp rfl)⟩
  have hfits : ∀ m ∈ [Message.bagSeed 42], m.Fits := by
    intro m hm
    rw [List.mem_singleton.mp hm]
    exact Message.fits_carrying _ _ (by decide)
  obtain ⟨hms, hphase⟩ := hbad [.bagSeed 42] stray hfits hstray ⟨encode .serverPing, rfl⟩
  obtain ⟨-, -, hended⟩ := hpipe ⟨64, [], [], true, false⟩ rfl
  refine ⟨hstray, ?_, (hclosed hphase _).2, (hended (fun h => nomatch h) rfl).2⟩
  rw [hnotices, hms, hphase]
  rfl

end Passage
end Link
end BlockDuel
