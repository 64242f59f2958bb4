import BlockDuel.Proofs.Wire.Frame

/-!
Whole frames. Octets are read as a message exactly if they are what some message is written as, and then
as that message; for all other octets the fault says what is wrong with them. So a row of frames says
which messages were written.
-/
namespace BlockDuel.Wire

/-- The number of the kind, as the first four octets have it. -/
def tagOf (d : Bytes) : UInt32 := UInt32.ofNat (Digits.value (d.take 4))

/-- The length of the payload, as the next four octets declare it. -/
def declaredOf (d : Bytes) : Nat := Digits.value ((d.drop 4).take 4)

variable {d : Bytes} {m : Message} {ms ms' : List Message}

theorem Kind.ofCode?_eq_none_iff {tag : UInt32} :
    Kind.ofCode? tag = none ↔ ∀ k : Kind, k.code ≠ tag := by
  constructor
  · rintro h k rfl
    rw [Kind.ofCode?_code] at h
    cases h
  · intro h
    cases hk : Kind.ofCode? tag with
    | none => rfl
    | some k => exact absurd (Kind.code_eq_of_ofCode? hk) (h k)

theorem length_fields (hl : headerLength ≤ d.length) :
    (d.take 4).length = 4 ∧ ((d.drop 4).take 4).length = 4 := by
  unfold headerLength at hl
  constructor
  · apply List.length_take_of_le
    omega
  · apply List.length_take_of_le
    rw [List.length_drop]
    omega

/-- The header is there as soon as its octets are. -/
theorem header?_of_length (hl : headerLength ≤ d.length) :
    header? d = some (⟨tagOf d, declaredOf d⟩, d.drop headerLength) := by
  obtain ⟨ht, hn⟩ := length_fields hl
  have hdrop : (d.drop 4).drop 4 = d.drop headerLength := List.drop_drop
  have htail : (d.drop 4).take 4 ++ d.drop headerLength = d.drop 4 := by
    rw [← hdrop, List.take_append_drop]
  have hsplit : d.take 4 ++ (d.drop 4).take 4 ++ d.drop headerLength = d := by
    rw [List.append_assoc, htail, List.take_append_drop]
  have hh := header?_append ht hn (d.drop headerLength)
  rw [hsplit] at hh
  exact hh

theorem declaredOf_lt (hl : headerLength ≤ d.length) : declaredOf d < UInt32.size := by
  have hlt := Digits.value_lt ((d.drop 4).take 4)
  rw [(length_fields hl).2] at hlt
  exact hlt

theorem decode_of_short (hl : d.length < headerLength) :
    decode d = .error (.malformed 0 d.length) := by
  unfold decode
  rw [header?_short hl]

theorem decode_of_mismatch (hl : headerLength ≤ d.length)
    (hn : declaredOf d ≠ d.length - headerLength) :
    decode d = .error (.malformed (declaredOf d) (d.length - headerLength)) := by
  unfold decode
  rw [header?_of_length hl]
  dsimp only
  rw [List.length_drop, if_pos hn]

/-- The kind is looked at once the lengths agree. -/
theorem decode_of_match (hl : headerLength ≤ d.length)
    (hn : declaredOf d = d.length - headerLength) :
    decode d = match Kind.ofCode? (tagOf d) with
      | none => .error (.unknownKind (tagOf d))
      | some k => .ok ⟨k, d.drop headerLength⟩ := by
  have hfits : ¬ declaredOf d ≠ (d.drop headerLength).length := by
    rw [List.length_drop]
    exact not_not_intro hn
  unfold decode
  rw [header?_of_length hl]
  exact if_neg hfits

theorem decode_encode (hm : m.payload.length < UInt32.size) : decode (encode m) = .ok m := by
  have hh := header?_encode hm m.payload
  unfold decode encode
  rw [hh]
  simp

/-- What is read as a message is what the message is written as. -/
theorem encode_of_decode (h : decode d = .ok m) :
    m.payload.length < UInt32.size ∧ encode m = d := by
  by_cases hl : headerLength ≤ d.length
  · by_cases hn : declaredOf d = d.length - headerLength
    · rw [decode_of_match hl hn] at h
      split at h
      · cases h
      · next k hk =>
        cases h
        have hlength : (d.drop headerLength).length = declaredOf d := by
          rw [List.length_drop, hn]
        have hcode : k.code = tagOf d := Kind.code_eq_of_ofCode? hk
        refine ⟨?_, ?_⟩
        · change (d.drop headerLength).length < _
          rw [hlength]
          exact declaredOf_lt hl
        · change Digits.write 4 k.code.toNat ++ Digits.write 4 (d.drop headerLength).length ++
            d.drop headerLength = d
          rw [hcode, hlength]
          exact (eq_of_header? (header?_of_length hl)).symm
    · rw [decode_of_mismatch hl hn] at h
      cases h
  · rw [decode_of_short (Nat.lt_of_not_le hl)] at h
    cases h

/-- Messages that fit in frames are all read back. -/
theorem drain_flatMap_encode (hf : ∀ m ∈ ms, m.Fits) :
    drain (ms.flatMap encode) = ⟨ms, none, []⟩ := by
  induction ms with
  | nil => exact drain_nil
  | cons m ms ih =>
    have hscan : scan (encode m ++ ms.flatMap encode) = .message m (ms.flatMap encode) :=
      scan_encode (hf m List.mem_cons_self) _
    rw [List.flatMap_cons, drain_message hscan, ih fun m' hm' => hf m' (List.mem_cons_of_mem m hm')]

theorem flatMap_encode_inj (hf : ∀ m ∈ ms, m.Fits) (hf' : ∀ m ∈ ms', m.Fits)
    (h : ms.flatMap encode = ms'.flatMap encode) : ms = ms' := by
  have hd := congrArg (fun bs => (drain bs).messages) h
  simp only [drain_flatMap_encode hf, drain_flatMap_encode hf'] at hd
  exact hd

/-- Octets are read as a message if and only if they are what this message is written as, which has a
length that fits four octets. Any other octets are refused: with their number if they are no header, with
the two lengths if these disagree, and as of an unknown kind only if the lengths agree. And messages that
a stream can carry are known from all that was written for them. -/
theorem decode_exact :
    (∀ d m, decode d = .ok m ↔ m.payload.length < UInt32.size ∧ encode m = d) ∧
    (∀ d, (∀ m, m.payload.length < UInt32.size → encode m ≠ d) →
      d.length < headerLength ∧ decode d = .error (.malformed 0 d.length) ∨
      headerLength ≤ d.length ∧ declaredOf d ≠ d.length - headerLength ∧
        decode d = .error (.malformed (declaredOf d) (d.length - headerLength)) ∨
      headerLength ≤ d.length ∧ declaredOf d = d.length - headerLength ∧
        (∀ k : Kind, k.code ≠ tagOf d) ∧ decode d = .error (.unknownKind (tagOf d))) ∧
    ∀ ms ms' : List Message, (∀ m ∈ ms, m.Fits) → (∀ m ∈ ms', m.Fits) →
      ms.flatMap encode = ms'.flatMap encode → ms = ms' := by
  refine ⟨fun d m => ⟨encode_of_decode, ?_⟩, ?_, fun ms ms' hf hf' h => flatMap_encode_inj hf hf' h⟩
  · rintro ⟨hm, rfl⟩
    exact decode_encode hm
  · intro d hd
    by_cases hl : headerLength ≤ d.length
    · by_cases hn : declaredOf d = d.length - headerLength
      · have hmatch := decode_of_match hl hn
        cases hk : Kind.ofCode? (tagOf d) with
        | none =>
          rw [hk] at hmatch
          exact .inr (.inr ⟨hl, hn, Kind.ofCode?_eq_none_iff.mp hk, hmatch⟩)
        | some k =>
          rw [hk] at hmatch
          obtain ⟨hm, he⟩ := encode_of_decode hmatch
          exact absurd he (hd _ hm)
      · exact .inr (.inl ⟨hl, hn, decode_of_mismatch hl hn⟩)
    · have hl : d.length < headerLength := Nat.lt_of_not_le hl
      exact .inl ⟨hl, decode_of_short hl⟩

/-- A seed is read back, and a frame of a kind that there is not is refused for its kind. -/
theorem stray_kind_refused :
    let stray : Bytes := [99, 0, 0, 0, 2, 0, 0, 0, 5, 6]
    decode (encode (.bagSeed 42)) = .ok (.bagSeed 42) ∧
      (∀ m, m.payload.length < UInt32.size → encode m ≠ stray) ∧
      decode stray = .error (.unknownKind 99) := by
  intro stray
  obtain ⟨hok, hrefused, -⟩ := decode_exact
  have hstray : ∀ m, m.payload.length < UInt32.size → encode m ≠ stray := by
    intro m hm he
    have hread := (hok stray m).mpr ⟨hm, he⟩
    cases hread
  refine ⟨(hok _ _).mpr ⟨by decide, rfl⟩, hstray, ?_⟩
  rcases hrefused stray hstray with ⟨hl, -⟩ | ⟨-, hn, -⟩ | ⟨-, -, -, h⟩
  · exact absurd hl (by decide)
  · exact absurd (by decide) hn
  · exact h

end BlockDuel.Wire
