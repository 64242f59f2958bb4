import BlockDuel.Proofs.Wire.Whole

/-!
Streams in pieces. Octets that come later change nothing about the messages and the fault at the front of
a stream, so it does not matter in which pieces a stream arrives, and at every moment the messages that
were read and the octets still held are what has arrived.
-/
namespace BlockDuel.Wire

variable {bs rest : Bytes} {m : Message} {ms : List Message} {f : Fault} {f? : Option Fault}

theorem header?_more {h : Header} {body : Bytes} (hs : header? bs = some (h, body)) (tail : Bytes) :
    header? (bs ++ tail) = some (h, body ++ tail) := by
  unfold header? at hs
  split at hs
  · cases hs
    rfl
  · cases hs

theorem scan_message_more (hs : scan bs = .message m rest) (tail : Bytes) :
    scan (bs ++ tail) = .message m (rest ++ tail) := by
  have hseen := seen bs
  rw [hs] at hseen
  cases hseen with
  | @whole h body k hh hm hk hn =>
    -- the payload was there before the tail came
    have hle : h.declared ≤ (body ++ tail).length := by
      rw [List.length_append]
      omega
    have hmore := Seen.whole (header?_more hh tail) hm hk hle
    rw [List.take_append_of_le_length hn, List.drop_append_of_le_length hn] at hmore
    exact hmore.eq

/-- A header is judged for good. -/
theorem scan_fault_more (hs : scan bs = .fault f) (tail : Bytes) : scan (bs ++ tail) = .fault f := by
  have hseen := seen bs
  rw [hs] at hseen
  cases hseen with
  | oversize hh hm => exact (Seen.oversize (header?_more hh tail) hm).eq
  | stray hh hm hk => exact (Seen.stray (header?_more hh tail) hm hk).eq

/-- An unfinished frame is shorter than the longest one. -/
theorem length_of_incomplete (hs : scan bs = .incomplete) : bs.length < headerLength + maxPayload := by
  have hseen := seen bs
  rw [hs] at hseen
  cases hseen with
  | short hh =>
    by_cases hl : bs.length < headerLength
    · exact Nat.lt_of_lt_of_le hl (Nat.le_add_right _ _)
    · rw [header?_of_length (Nat.le_of_not_lt hl)] at hh
      cases hh
  | cut hh hm hk hn =>
    have hb := header?_length hh
    omega

/-- What is taken off a stream is taken off before its end comes, and the rest goes on from there. -/
theorem drain_append (bs tail : Bytes) :
    drain (bs ++ tail) =
      { drain ((drain bs).rest ++ tail) with
        messages := (drain bs).messages ++ (drain ((drain bs).rest ++ tail)).messages } := by
  induction bs using drain.induct with
  | case1 bs m rest hs _ ih =>
    rw [drain_message (scan_message_more hs tail), drain_message hs, ih]
    rfl
  | case2 bs hs =>
    rw [drain_incomplete hs]
    rfl
  | case3 bs f hs =>
    rw [drain_fault hs]
    rfl

theorem length_drain_rest (hd : (drain bs).fault? = none) :
    (drain bs).rest.length < headerLength + maxPayload := by
  induction bs using drain.induct with
  | case1 bs m rest hs _ ih =>
    rw [drain_message hs] at hd ⊢
    exact ih hd
  | case2 bs hs =>
    rw [drain_incomplete hs]
    exact length_of_incomplete hs
  | case3 bs f hs =>
    rw [drain_fault hs] at hd
    cases hd

/-- Draining loses nothing. -/
theorem encode_of_drain (bs : Bytes) : (drain bs).messages.flatMap encode ++ (drain bs).rest = bs := by
  induction bs using drain.induct with
  | case1 bs m rest hs _ ih =>
    rw [drain_message hs, List.flatMap_cons, List.append_assoc, ih]
    exact encode_of_scan hs
  | case2 bs hs =>
    rw [drain_incomplete hs]
    rfl
  | case3 bs f hs =>
    rw [drain_fault hs]
    rfl

namespace Intake

variable {i j k : Intake}

theorem next_some_iff : i.next = (.ok (some m), j) ↔ scan i.pending = .message m j.pending := by
  obtain ⟨pending⟩ := j
  unfold next
  cases scan i.pending <;> simp

theorem next_none_iff : i.next = (.ok none, j) ↔ scan i.pending = .incomplete ∧ i = j := by
  unfold next
  cases scan i.pending <;> simp

theorem next_error_iff : i.next = (.error f, j) ↔ scan i.pending = .fault f ∧ i = j := by
  unfold next
  cases scan i.pending <;> simp

/-- One call for the next message after the other, until a call brings none. -/
inductive Drains : Intake → List Message → Option Fault → Intake → Prop
  | waits {i j : Intake} : i.next = (.ok none, j) → Drains i [] none j
  | stops {i j : Intake} {f : Fault} : i.next = (.error f, j) → Drains i [] (some f) j
  | takes {i j k : Intake} {m : Message} {ms : List Message} {f? : Option Fault} :
    i.next = (.ok (some m), j) → Drains j ms f? k → Drains i (m :: ms) f? k

theorem drains_drain (bs : Bytes) :
    Drains ⟨bs⟩ (Wire.drain bs).messages (Wire.drain bs).fault? ⟨(Wire.drain bs).rest⟩ := by
  induction bs using drain.induct with
  | case1 bs m rest hs _ ih =>
    rw [drain_message hs]
    exact .takes (next_some_iff.mpr hs) ih
  | case2 bs hs =>
    rw [drain_incomplete hs]
    exact .waits (next_none_iff.mpr ⟨hs, rfl⟩)
  | case3 bs f hs =>
    rw [drain_fault hs]
    exact .stops (next_error_iff.mpr ⟨hs, rfl⟩)

theorem drain_of_drains (h : Drains i ms f? j) : i.drain = (ms, f?, j) := by
  induction h with
  | waits hn =>
    obtain ⟨hs, rfl⟩ := next_none_iff.mp hn
    simp only [drain, drain_incomplete hs]
  | stops hn =>
    obtain ⟨hs, rfl⟩ := next_error_iff.mp hn
    simp only [drain, drain_fault hs]
  | takes hn _ ih =>
    have hs := next_some_iff.mp hn
    simp only [drain, Prod.mk.injEq] at ih
    obtain ⟨hms, hf, hk⟩ := ih
    simp only [drain, drain_message hs, hms, hf, hk]

/-- The calls come to an end, and to one end only. -/
theorem drains_iff : Drains i ms f? j ↔ i.drain = (ms, f?, j) := by
  constructor
  · exact drain_of_drains
  · intro h
    simp only [drain, Prod.mk.injEq] at h
    obtain ⟨rfl, rfl, rfl⟩ := h
    exact drains_drain i.pending

/-- What can be done with the receiving end of a stream. -/
inductive Touch
  | extend (bs : Bytes)
  | next
  deriving DecidableEq, Repr

end Intake

/-- The receiving end of a stream and the messages that were read from it. -/
structure Reading where
  intake : Intake
  read : List Message
  deriving DecidableEq, Repr

/-- The octets that arrive meanwhile. -/
def arriving (ts : List Intake.Touch) : Bytes :=
  ts.flatMap fun
    | .extend bs => bs
    | .next => []

namespace Reading

def empty : Reading := ⟨.empty, []⟩

def touch (r : Reading) : Intake.Touch → Reading
  | .extend bs => { r with intake := r.intake.extend bs }
  | .next =>
    match r.intake.next with
    | (.ok (some m), i) => ⟨i, r.read ++ [m]⟩
    | (_, i) => { r with intake := i }

def run (r : Reading) (ts : List Intake.Touch) : Reading := ts.foldl touch r

/-- The frames of the messages that were read, and the octets still held. -/
def octets (r : Reading) : Bytes := r.read.flatMap encode ++ r.intake.pending

/-- The stream stands still at a fault: the call for the next message brings it and nothing else. -/
def Stuck (r : Reading) (f : Fault) : Prop := r.intake.next = (.error f, r.intake)

variable {r : Reading}

theorem octets_touch (r : Reading) (t : Intake.Touch) :
    (r.touch t).octets = r.octets ++ arriving [t] := by
  cases t with
  | extend bs => simp [touch, octets, Intake.extend, arriving]
  | next =>
    have hnone : arriving [.next] = [] := rfl
    rw [hnone, List.append_nil]
    cases hs : scan r.intake.pending with
    | message m rest =>
      have hn : r.intake.next = (.ok (some m), ⟨rest⟩) := Intake.next_some_iff.mpr hs
      simp [touch, hn, octets, encode_of_scan hs]
    | incomplete =>
      have hn : r.intake.next = (.ok none, r.intake) := Intake.next_none_iff.mpr ⟨hs, rfl⟩
      simp only [touch, hn, octets]
    | fault f =>
      have hn : r.intake.next = (.error f, r.intake) := Intake.next_error_iff.mpr ⟨hs, rfl⟩
      simp only [touch, hn, octets]

/-- No octet is lost, doubled or moved. -/
theorem octets_run (r : Reading) (ts : List Intake.Touch) :
    (r.run ts).octets = r.octets ++ arriving ts := by
  induction ts generalizing r with
  | nil => exact (List.append_nil _).symm
  | cons t ts ih =>
    have hstep : r.run (t :: ts) = (r.touch t).run ts := rfl
    rw [hstep, ih, octets_touch, List.append_assoc, arriving, arriving, arriving,
      ← List.flatMap_append]
    rfl

theorem stuck_iff : r.Stuck f ↔ scan r.intake.pending = .fault f := by
  unfold Stuck
  rw [Intake.next_error_iff]
  exact and_iff_left rfl

theorem Stuck.extend (h : r.Stuck f) (bs : Bytes) : (⟨r.intake.extend bs, r.read⟩ : Reading).Stuck f :=
  stuck_iff.mpr (scan_fault_more (stuck_iff.mp h) bs)

theorem Stuck.touch (h : r.Stuck f) (t : Intake.Touch) :
    r.touch t = ⟨r.intake.extend (arriving [t]), r.read⟩ := by
  cases t with
  | extend bs => simp [Reading.touch, arriving]
  | next =>
    have hn : r.intake.next = (.error f, r.intake) := h
    simp [Reading.touch, hn, arriving, Intake.extend]

/-- A stream at a fault takes in what arrives and gives nothing out, ever. -/
theorem Stuck.run (h : r.Stuck f) (ts : List Intake.Touch) :
    r.run ts = ⟨r.intake.extend (arriving ts), r.read⟩ := by
  induction ts generalizing r with
  | nil => simp [Reading.run, arriving, Intake.extend]
  | cons t ts ih =>
    have hstep : r.run (t :: ts) = (r.touch t).run ts := rfl
    rw [hstep, h.touch t, ih (h.extend _)]
    simp [Intake.extend, arriving]

end Reading

/-- Feeds one more piece and drains what is then there. -/
def Drained.feed (d : Drained) (piece : Bytes) : Drained :=
  let (ms, f?, i) := ((⟨d.rest⟩ : Intake).extend piece).drain
  ⟨d.messages ++ ms, f?, i.pending⟩

/-- What a stream yields that arrives in these pieces. -/
def inPieces (pieces : List Bytes) : Drained := pieces.foldl Drained.feed ⟨[], none, []⟩

theorem feed_drain (bs piece : Bytes) : (drain bs).feed piece = drain (bs ++ piece) := by
  rw [drain_append]
  rfl

/-- The cuts of a stream leave no trace. -/
theorem inPieces_eq (pieces : List Bytes) : inPieces pieces = drain pieces.flatten := by
  have hgeneral : ∀ bs : Bytes,
      pieces.foldl Drained.feed (drain bs) = drain (bs ++ pieces.flatten) := by
    induction pieces with
    | nil => simp
    | cons piece pieces ih =>
      intro bs
      rw [List.foldl_cons, feed_drain, ih, List.flatten_cons, List.append_assoc]
  have hstart := hgeneral []
  rw [drain_nil, List.nil_append] at hstart
  exact hstart

/-- However a stream is cut, it yields the same messages, the same fault and the same rest. Whatever is
done with a stream, the frames of the messages that were read and the octets still held are those that
arrived. The calls for the next message come to one end, with less than one longest frame left if there is
no fault. A fault stays: nothing is taken and the same fault comes back whatever is done and whatever
arrives. -/
theorem read_in_pieces :
    (∀ pieces, inPieces pieces = inPieces [pieces.flatten]) ∧
    (∀ pieces, (inPieces pieces).messages.flatMap encode ++ (inPieces pieces).rest =
      pieces.flatten) ∧
    (∀ ts, (Reading.empty.run ts).octets = arriving ts) ∧
    (∀ i ms f? j, Intake.Drains i ms f? j ↔ i.drain = (ms, f?, j)) ∧
    (∀ i ms j, Intake.Drains i ms none j → j.buffered < headerLength + maxPayload) ∧
    ∀ (r : Reading) f i, r.intake.next = (.error f, i) → i = r.intake ∧
      ∀ ts, r.run ts = ⟨r.intake.extend (arriving ts), r.read⟩ ∧
        (r.run ts).intake.next = (.error f, (r.run ts).intake) := by
  refine ⟨?_, ?_, ?_, fun i ms f? j => Intake.drains_iff, ?_, ?_⟩
  · intro pieces
    rw [inPieces_eq, inPieces_eq, List.flatten_singleton]
  · intro pieces
    rw [inPieces_eq]
    exact encode_of_drain pieces.flatten
  · intro ts
    exact Reading.octets_run Reading.empty ts
  · intro i ms j hd
    have hdrain := Intake.drain_of_drains hd
    simp only [Intake.drain, Prod.mk.injEq] at hdrain
    obtain ⟨-, hnone, rfl⟩ := hdrain
    exact length_drain_rest hnone
  · intro r f i hn
    obtain ⟨-, rfl⟩ := Intake.next_error_iff.mp hn
    have hstuck : r.Stuck f := hn
    refine ⟨rfl, fun ts => ⟨hstuck.run ts, ?_⟩⟩
    have hlater : (r.run ts).Stuck f := by
      rw [hstuck.run ts]
      exact hstuck.extend _
    exact hlater

/-- A frame arrives in two pieces, the second with octets behind it that are no frame: the message is
read, and the stream never gets past the stray octets. -/
theorem stuck_behind_torn_frame :
    let frame := encode (.bagSeed 42)
    let stray : Bytes := [99, 0, 0, 0, 2, 0, 0, 0]
    let r := Reading.empty.run
      [.extend (frame.take 5), .next, .extend (frame.drop 5 ++ stray), .next]
    r.read = [.bagSeed 42] ∧ r.intake.next = (.error (.unknownKind 99), r.intake) ∧
      (r.run [.extend frame, .next]).read = [.bagSeed 42] ∧
      (inPieces [frame.take 5, [], frame.drop 5 ++ stray]) = inPieces [frame ++ stray] := by
  intro frame stray r
  obtain ⟨hpieces, -, -, -, -, hstuck⟩ := read_in_pieces
  have hread : r.read = [.bagSeed 42] := rfl
  have hfault : r.intake.next = (.error (.unknownKind 99), r.intake) := rfl
  have hlater := ((hstuck r _ _ hfault).2 [.extend frame, .next]).1
  refine ⟨hread, hfault, ?_, hpieces _⟩
  rw [hlater]
  exact hread

end BlockDuel.Wire
