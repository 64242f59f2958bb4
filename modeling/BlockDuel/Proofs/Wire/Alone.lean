import BlockDuel.Proofs.Wire.Chunks

/-!
Octets that should be one frame can be read in two ways: as a whole, or as a stream that carries nothing
else. The two look at the length, the limit and the kind in different orders, and only a stream has a
limit; they agree as far as the limit allows.
-/
namespace BlockDuel.Wire

/-- What the two ways make of octets, with the reason: as a stream and as a whole. -/
inductive Sight (d : Bytes) : Scan → Except Fault Message → Prop
  | short (hl : d.length < headerLength) : Sight d .incomplete (.error (.malformed 0 d.length))
  /-- A stream looks no further than the length that is declared. -/
  | oversize (hl : headerLength ≤ d.length) (hm : maxPayload < declaredOf d)
    (whole : Except Fault Message) : Sight d (.fault (.tooLarge (declaredOf d))) whole
  | stray (hl : headerLength ≤ d.length) (hm : declaredOf d ≤ maxPayload)
    (hn : declaredOf d = d.length - headerLength) :
    Sight d (.fault (.unknownKind (tagOf d))) (.error (.unknownKind (tagOf d)))
  | strayMismatch (hl : headerLength ≤ d.length) (hm : declaredOf d ≤ maxPayload)
    (hn : declaredOf d ≠ d.length - headerLength) :
    Sight d (.fault (.unknownKind (tagOf d)))
      (.error (.malformed (declaredOf d) (d.length - headerLength)))
  | cut (hl : headerLength ≤ d.length) (hm : declaredOf d ≤ maxPayload)
    (hn : d.length - headerLength < declaredOf d) :
    Sight d .incomplete (.error (.malformed (declaredOf d) (d.length - headerLength)))
  | alone (hl : headerLength ≤ d.length) (hm : declaredOf d ≤ maxPayload) (k : Kind)
    (hn : declaredOf d = d.length - headerLength) :
    Sight d (.message ⟨k, d.drop headerLength⟩ []) (.ok ⟨k, d.drop headerLength⟩)
  | followed (hl : headerLength ≤ d.length) (hm : declaredOf d ≤ maxPayload) (k : Kind)
    (rest : Bytes) (hr : rest ≠ []) :
    Sight d (.message ⟨k, (d.drop headerLength).take (declaredOf d)⟩ rest)
      (.error (.malformed (declaredOf d) (d.length - headerLength)))

variable {d rest : Bytes} {m : Message}

theorem sight (d : Bytes) : Sight d (scan d) (decode d) := by
  by_cases hl : d.length < headerLength
  · rw [(Seen.short (header?_short hl)).eq, decode_of_short hl]
    exact .short hl
  have hl : headerLength ≤ d.length := Nat.le_of_not_lt hl
  have hh := header?_of_length hl
  have hbody : (d.drop headerLength).length = d.length - headerLength := List.length_drop
  by_cases hm : maxPayload < declaredOf d
  · rw [(Seen.oversize hh hm).eq]
    exact .oversize hl hm _
  have hm : declaredOf d ≤ maxPayload := Nat.le_of_not_lt hm
  cases hk : Kind.ofCode? (tagOf d) with
  | none =>
    rw [(Seen.stray hh hm hk).eq]
    by_cases hn : declaredOf d = d.length - headerLength
    · rw [decode_of_match hl hn, hk]
      exact .stray hl hm hn
    · rw [decode_of_mismatch hl hn]
      exact .strayMismatch hl hm hn
  | some k =>
    rcases Nat.lt_trichotomy (declaredOf d) (d.length - headerLength) with hn | hn | hn
    · have hrest : (d.drop headerLength).drop (declaredOf d) ≠ [] := by
        rw [ne_eq, List.drop_eq_nil_iff, hbody]
        exact Nat.not_le.mpr hn
      rw [(Seen.whole hh hm hk (hbody ▸ Nat.le_of_lt hn)).eq,
        decode_of_mismatch hl (Nat.ne_of_lt hn)]
      exact .followed hl hm k _ hrest
    · have hle : (d.drop headerLength).length ≤ declaredOf d := hbody ▸ Nat.le_of_eq hn.symm
      rw [(Seen.whole hh hm hk (hbody ▸ Nat.le_of_eq hn)).eq, decode_of_match hl hn, hk]
      dsimp only
      rw [List.take_of_length_le hle, List.drop_of_length_le hle]
      exact .alone hl hm k hn
    · rw [(Seen.cut hh hm hk (hbody ▸ hn)).eq, decode_of_mismatch hl (Nat.ne_of_gt hn)]
      exact .cut hl hm hn

theorem scan_alone_iff : scan d = .message m [] ↔ decode d = .ok m ∧ m.Fits := by
  constructor
  · intro hs
    have hm : m.Fits := fits_of_scan hs
    have he := encode_of_scan hs
    rw [List.append_nil] at he
    rw [← he]
    exact ⟨decode_encode hm.lt_size, hm⟩
  · rintro ⟨hd, hm⟩
    have hs := scan_encode hm []
    rw [List.append_nil, (encode_of_decode hd).2] at hs
    exact hs

theorem malformed_of_incomplete (hs : scan d = .incomplete) :
    ∃ declared available, decode d = .error (.malformed declared available) := by
  have hsight := sight d
  rw [hs] at hsight
  generalize decode d = whole at hsight
  cases hsight with
  | short hl => exact ⟨_, _, rfl⟩
  | cut hl hm hn => exact ⟨_, _, rfl⟩

theorem malformed_of_followed (hs : scan d = .message m rest) (hr : rest ≠ []) :
    ∃ declared available, decode d = .error (.malformed declared available) := by
  have hsight := sight d
  rw [hs] at hsight
  generalize decode d = whole at hsight
  cases hsight with
  | alone hl hm k hn => exact absurd rfl hr
  | followed hl hm k rest hr => exact ⟨_, _, rfl⟩

theorem decode_of_unknownKind {t : UInt32} (hs : scan d = .fault (.unknownKind t)) :
    decode d = .error (.unknownKind t) ∨
      ∃ declared available, decode d = .error (.malformed declared available) := by
  have hsight := sight d
  rw [hs] at hsight
  generalize decode d = whole at hsight
  cases hsight with
  | stray hl hm hn => exact .inl rfl
  | strayMismatch hl hm hn => exact .inr ⟨_, _, rfl⟩

theorem scan_eq_tooLarge_iff {n : Nat} :
    scan d = .fault (.tooLarge n) ↔ headerLength ≤ d.length ∧ declaredOf d = n ∧ maxPayload < n := by
  constructor
  · intro hs
    have hsight := sight d
    rw [hs] at hsight
    cases hsight with
    | oversize hl hm whole => exact ⟨hl, rfl, hm⟩
  · rintro ⟨hl, rfl, hm⟩
    exact (Seen.oversize (header?_of_length hl) hm).eq

/-- A stream on which all of `d` has arrived and nothing else. -/
def Intake.fed (d : Bytes) : Intake := Intake.empty.extend d

/-- A stream that brings one message and holds nothing more has brought what is read as a whole, if that
is no longer than a stream may declare, and the other way round. If the stream brings nothing, or something
more is left, the lengths disagree for a reader of the whole. If the kind is unknown, it is so for this
reader too, unless the lengths disagree. And what a stream refuses as too large is what declares too much,
of whatever kind and however much is there. -/
theorem alone_agrees :
    (∀ d m, (∃ i, (Intake.fed d).next = (.ok (some m), i) ∧ i.buffered = 0) ↔
      decode d = .ok m ∧ m.payload.length ≤ maxPayload) ∧
    (∀ d i, (Intake.fed d).next = (.ok none, i) ∨
        (∃ m, (Intake.fed d).next = (.ok (some m), i) ∧ 0 < i.buffered) →
      ∃ declared available, decode d = .error (.malformed declared available)) ∧
    (∀ d t i, (Intake.fed d).next = (.error (.unknownKind t), i) →
      decode d = .error (.unknownKind t) ∨
        ∃ declared available, decode d = .error (.malformed declared available)) ∧
    ∀ d n, (∃ i, (Intake.fed d).next = (.error (.tooLarge n), i)) ↔
      headerLength ≤ d.length ∧ declaredOf d = n ∧ maxPayload < n := by
  refine ⟨fun d m => ?_, fun d i => ?_, fun d t i hn => ?_, fun d n => ?_⟩
  · constructor
    · rintro ⟨⟨pending⟩, hn, hb⟩
      obtain rfl : pending = [] := List.length_eq_zero_iff.mp hb
      exact scan_alone_iff.mp (Intake.next_some_iff.mp hn)
    · intro h
      have hs : scan (Intake.fed d).pending = .message m Intake.empty.pending := scan_alone_iff.mpr h
      exact ⟨.empty, Intake.next_some_iff.mpr hs, rfl⟩
  · rintro (hn | ⟨m, hn, hb⟩)
    · exact malformed_of_incomplete (Intake.next_none_iff.mp hn).1
    · exact malformed_of_followed (Intake.next_some_iff.mp hn) (List.length_pos_iff.mp hb)
  · exact decode_of_unknownKind (Intake.next_error_iff.mp hn).1
  · have hs : scan (Intake.fed d).pending = .fault (.tooLarge n) ↔ _ := scan_eq_tooLarge_iff
    constructor
    · rintro ⟨i, hn⟩
      exact hs.mp (Intake.next_error_iff.mp hn).1
    · intro h
      exact ⟨_, Intake.next_error_iff.mpr ⟨hs.mpr h, rfl⟩⟩

/-- A seed with one octet behind it, the beginning of a frame of a kind that there is not, and a header
that declares one octet too many for a stream. -/
theorem malformed_behind_seed :
    let followed := encode (.bagSeed 42) ++ [0]
    let stray : Bytes := [99, 0, 0, 0, 4, 0, 0, 0]
    let oversize : Bytes := [22, 0, 0, 0, 1, 0, 1, 0]
    (∃ i, (Intake.fed followed).next = (.ok (some (.bagSeed 42)), i) ∧ 0 < i.buffered) ∧
      (∃ declared available, decode followed = .error (.malformed declared available)) ∧
      (Intake.fed stray).next = (.error (.unknownKind 99), Intake.fed stray) ∧
      (decode stray = .error (.unknownKind 99) ∨
        ∃ declared available, decode stray = .error (.malformed declared available)) ∧
      ∃ i, (Intake.fed oversize).next = (.error (.tooLarge 65537), i) := by
  intro followed stray oversize
  obtain ⟨-, hmalformed, hstray, hlarge⟩ := alone_agrees
  have hfirst : (Intake.fed followed).next = (.ok (some (.bagSeed 42)), ⟨[0]⟩) := rfl
  have hunknown : (Intake.fed stray).next = (.error (.unknownKind 99), Intake.fed stray) := rfl
  refine ⟨⟨_, hfirst, by decide⟩, hmalformed followed _ (.inr ⟨_, hfirst, by decide⟩), hunknown,
    hstray stray 99 _ hunknown, (hlarge oversize 65537).mpr ⟨by decide, rfl, by decide⟩⟩

end BlockDuel.Wire
