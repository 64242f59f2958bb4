import BlockDuel.Proofs.Wire.Layout
import BlockDuel.Wire.Frame

/-!
Frames on a stream. What a reader takes for a message are exactly the octets that the message is written
as, and messages that fit in a frame come out as they were put in, wherever the stream is cut.
-/
namespace BlockDuel.Wire

/-- A stream can carry the message. -/
def Message.Fits (m : Message) : Prop := m.payload.length ≤ maxPayload

theorem Message.fits_carrying {α : Type} [Layout α] [LawfulLayout α] (k : Kind) (a : α)
    (h : Layout.width α ≤ maxPayload) : (carrying k a).Fits := by
  unfold Fits
  rw [length_carrying]
  exact h

variable {bs rest tail : Bytes} {m : Message} {ms : List Message}

/-- The length of a message that a stream can carry fits the four octets in front. -/
theorem Message.Fits.lt_size (h : m.Fits) : m.payload.length < UInt32.size :=
  Nat.lt_of_le_of_lt h (by decide)

theorem header?_append {t d : Bytes} (ht : t.length = 4) (hd : d.length = 4) (body : Bytes) :
    header? (t ++ d ++ body) = some (⟨UInt32.ofNat (Digits.value t), Digits.value d⟩, body) := by
  match t, ht, d, hd with
  | [_, _, _, _], _, [_, _, _, _], _ => rfl

theorem header?_short (hl : bs.length < headerLength) : header? bs = none := by
  cases h : header? bs with
  | none => rfl
  | some out =>
    have hb := header?_length h
    omega

/-- A header stands in front of the rest as it was written. -/
theorem eq_of_header? {h : Header} {body : Bytes} (hs : header? bs = some (h, body)) :
    bs = Digits.write 4 h.tag.toNat ++ Digits.write 4 h.declared ++ body := by
  unfold header? at hs
  split at hs
  · next a b c d e f g i body' =>
    cases hs
    have ht : (UInt32.ofNat (Digits.value [a, b, c, d])).toNat = Digits.value [a, b, c, d] :=
      UInt32.toNat_ofNat_of_lt (Digits.value_lt [a, b, c, d])
    have ha : Digits.write 4 (Digits.value [a, b, c, d]) = [a, b, c, d] :=
      Digits.write_value [a, b, c, d]
    have he : Digits.write 4 (Digits.value [e, f, g, i]) = [e, f, g, i] :=
      Digits.write_value [e, f, g, i]
    rw [ht, ha, he]
    rfl
  · cases hs

theorem header?_encode (hm : m.payload.length < UInt32.size) (payload : Bytes) :
    header? (Digits.write 4 m.kind.code.toNat ++ Digits.write 4 m.payload.length ++ payload) =
      some (⟨m.kind.code, m.payload.length⟩, payload) := by
  have hk : Digits.value (Digits.write 4 m.kind.code.toNat) = m.kind.code.toNat := by
    rw [Digits.value_write]
    exact Nat.mod_eq_of_lt m.kind.code.toNat_lt
  have hp : Digits.value (Digits.write 4 m.payload.length) = m.payload.length := by
    rw [Digits.value_write]
    exact Nat.mod_eq_of_lt hm
  rw [header?_append (Digits.length_write 4 _) (Digits.length_write 4 _), hk, hp,
    UInt32.ofNat_toNat]

/-- What is seen at the front of a stream, and for which reason. -/
inductive Seen (bs : Bytes) : Scan → Prop
  | short (hh : header? bs = none) : Seen bs .incomplete
  | oversize {h : Header} {body : Bytes} (hh : header? bs = some (h, body))
    (hm : maxPayload < h.declared) : Seen bs (.fault (.tooLarge h.declared))
  | stray {h : Header} {body : Bytes} (hh : header? bs = some (h, body))
    (hm : h.declared ≤ maxPayload) (hk : Kind.ofCode? h.tag = none) :
    Seen bs (.fault (.unknownKind h.tag))
  | cut {h : Header} {body : Bytes} {k : Kind} (hh : header? bs = some (h, body))
    (hm : h.declared ≤ maxPayload) (hk : Kind.ofCode? h.tag = some k)
    (hn : body.length < h.declared) : Seen bs .incomplete
  | whole {h : Header} {body : Bytes} {k : Kind} (hh : header? bs = some (h, body))
    (hm : h.declared ≤ maxPayload) (hk : Kind.ofCode? h.tag = some k)
    (hn : h.declared ≤ body.length) :
    Seen bs (.message ⟨k, body.take h.declared⟩ (body.drop h.declared))

theorem Seen.eq {s : Scan} (hs : Seen bs s) : scan bs = s := by
  unfold scan
  cases hs with
  | short hh => rw [hh]
  | oversize hh hm =>
    rw [hh]
    exact if_pos hm
  | stray hh hm hk =>
    rw [hh]
    simp only [if_neg (Nat.not_lt.mpr hm), hk]
  | @cut h body k hh hm hk hn =>
    have hcut : ¬ (body.take h.declared).length = h.declared := by
      rw [List.length_take]
      omega
    rw [hh]
    simp only [if_neg (Nat.not_lt.mpr hm), hk, if_neg hcut]
  | @whole h body k hh hm hk hn =>
    have hwhole : (body.take h.declared).length = h.declared := List.length_take_of_le hn
    rw [hh]
    simp only [if_neg (Nat.not_lt.mpr hm), hk, if_pos hwhole]

theorem exists_seen (bs : Bytes) : ∃ s, Seen bs s := by
  cases hh : header? bs with
  | none => exact ⟨_, .short hh⟩
  | some out =>
    obtain ⟨h, body⟩ := out
    by_cases hm : maxPayload < h.declared
    · exact ⟨_, .oversize hh hm⟩
    have hm : h.declared ≤ maxPayload := Nat.le_of_not_lt hm
    cases hk : Kind.ofCode? h.tag with
    | none => exact ⟨_, .stray hh hm hk⟩
    | some k =>
      rcases Nat.lt_or_ge body.length h.declared with hn | hn
      · exact ⟨_, .cut hh hm hk hn⟩
      · exact ⟨_, .whole hh hm hk hn⟩

theorem seen (bs : Bytes) : Seen bs (scan bs) := by
  obtain ⟨s, hs⟩ := exists_seen bs
  rw [hs.eq]
  exact hs

theorem scan_encode (hm : m.Fits) (rest : Bytes) : scan (encode m ++ rest) = .message m rest := by
  have hh := header?_encode hm.lt_size (m.payload ++ rest)
  rw [← List.append_assoc] at hh
  have hle : m.payload.length ≤ (m.payload ++ rest).length := by simp
  have hseen := Seen.whole hh hm (Kind.ofCode?_code m.kind) hle
  rw [List.take_left, List.drop_left] at hseen
  exact hseen.eq

/-- The octets that are taken for a message are those that it is written as. -/
theorem encode_of_scan (hs : scan bs = .message m rest) : encode m ++ rest = bs := by
  have hseen := seen bs
  rw [hs] at hseen
  cases hseen with
  | @whole h body k hh hm hk hn =>
    have hc : k.code = h.tag := Kind.code_eq_of_ofCode? hk
    rw [eq_of_header? hh]
    simp only [encode, hc, List.length_take_of_le hn, List.append_assoc, List.take_append_drop]

/-- A frame that is cut short is waited for. -/
theorem scan_cut (hm : m.Fits) (hb : bs ++ tail = encode m) (ht : tail ≠ []) :
    scan bs = .incomplete := by
  by_cases hl : bs.length < headerLength
  · exact (Seen.short (header?_short hl)).eq
  · let head := Digits.write 4 m.kind.code.toNat ++ Digits.write 4 m.payload.length
    have hhead : head.length = headerLength := by
      simp only [head, List.length_append, Digits.length_write, headerLength]
    have hsplit : bs ++ tail = head ++ m.payload := hb
    obtain ⟨front, hfront, hpayload⟩ : ∃ front, bs = head ++ front ∧ m.payload = front ++ tail := by
      rcases List.append_eq_append_iff.mp hsplit with ⟨x, hx, htail⟩ | ⟨front, hbs, hpayload⟩
      · have hx0 : x = [] := by
          have hlen : head.length = (bs ++ x).length := congrArg List.length hx
          rw [hhead, List.length_append] at hlen
          apply List.length_eq_zero_iff.mp
          omega
        subst hx0
        refine ⟨[], ?_, ?_⟩
        · rw [List.append_nil] at hx
          rw [hx, List.append_nil]
        · rw [List.nil_append]
          rw [List.nil_append] at htail
          exact htail.symm
      · exact ⟨front, hbs, hpayload⟩
    have hshort : front.length < m.payload.length := by
      rw [hpayload, List.length_append]
      have := List.length_pos_iff.mpr ht
      omega
    have hh : header? bs = some (⟨m.kind.code, m.payload.length⟩, front) := by
      rw [hfront]
      exact header?_encode hm.lt_size front
    exact (Seen.cut hh hm (Kind.ofCode?_code m.kind) hshort).eq

theorem drain_message (hs : scan bs = .message m rest) :
    drain bs = { drain rest with messages := m :: (drain rest).messages } := by
  rw [drain]
  split
  · next hs' =>
    rw [hs] at hs'
    cases hs'
    rfl
  · next hs' =>
    rw [hs] at hs'
    cases hs'
  · next hs' =>
    rw [hs] at hs'
    cases hs'

theorem drain_incomplete (hs : scan bs = .incomplete) : drain bs = ⟨[], none, bs⟩ := by
  rw [drain]
  split
  · next hs' =>
    rw [hs] at hs'
    cases hs'
  · rfl
  · next hs' =>
    rw [hs] at hs'
    cases hs'

theorem drain_fault {f : Fault} (hs : scan bs = .fault f) : drain bs = ⟨[], some f, bs⟩ := by
  rw [drain]
  split
  · next hs' =>
    rw [hs] at hs'
    cases hs'
  · next hs' =>
    rw [hs] at hs'
    cases hs'
  · next hs' =>
    rw [hs] at hs'
    cases hs'
    rfl

theorem drain_nil : drain [] = ⟨[], none, []⟩ := drain_incomplete rfl

/-- A stream that carries messages and breaks off anywhere yields those that are whole, and what is
left over is the beginning of the others. -/
theorem drain_encoded (hf : ∀ m ∈ ms, m.Fits) (hb : bs ++ tail = ms.flatMap encode) :
    ∃ read unread, ms = read ++ unread ∧ (drain bs).messages = read ∧ (drain bs).fault? = none ∧
      (drain bs).rest ++ tail = unread.flatMap encode := by
  induction ms generalizing bs with
  | nil =>
    obtain ⟨rfl, rfl⟩ := List.append_eq_nil_iff.mp hb
    rw [drain_nil]
    exact ⟨[], [], rfl, rfl, rfl, rfl⟩
  | cons m ms ih =>
    have hm : m.Fits := hf m List.mem_cons_self
    rw [List.flatMap_cons] at hb
    rcases List.append_eq_append_iff.mp hb with ⟨cut, hcut, htail⟩ | ⟨more, hbs, hmore⟩
    · -- the stream breaks off inside the first frame or right behind it
      by_cases hne : cut = []
      · subst hne
        rw [List.append_nil] at hcut
        have hscan : scan bs = .message m [] := by
          have := scan_encode hm []
          rwa [List.append_nil, hcut] at this
        rw [drain_message hscan, drain_nil]
        refine ⟨[m], ms, rfl, rfl, rfl, ?_⟩
        rw [htail]
        rfl
      · rw [drain_incomplete (scan_cut hm hcut.symm hne)]
        exact ⟨[], m :: ms, rfl, rfl, rfl, hb⟩
    · have hscan : scan bs = .message m more := by
        rw [hbs]
        exact scan_encode hm more
      obtain ⟨read, unread, hms, hread, hfault, hrest⟩ :=
        ih (fun m' h => hf m' (List.mem_cons_of_mem m h)) hmore.symm
      rw [drain_message hscan]
      refine ⟨m :: read, unread, ?_, ?_, hfault, hrest⟩
      · rw [hms]
        rfl
      · simp only [hread]

theorem fits_of_scan (h : scan bs = .message m rest) : m.Fits := by
  have hseen := seen bs
  rw [h] at hseen
  cases hseen with
  | whole hh hm hk hn =>
    unfold Message.Fits
    rw [List.length_take_of_le hn]
    exact hm

/-- Whatever comes out of a stream fits in a frame. -/
theorem fits_of_drain (bs : Bytes) : ∀ m ∈ (drain bs).messages, m.Fits := by
  intro m hm
  induction hn : bs.length using Nat.strongRecOn generalizing bs with
  | _ n ih =>
    cases hs : scan bs with
    | message m' rest =>
      rw [drain_message hs] at hm
      rcases List.mem_cons.mp hm with rfl | hm
      · exact fits_of_scan hs
      · have hlt : rest.length < n := hn ▸ scan_length hs
        exact ih rest.length hlt rest hm rfl
    | incomplete =>
      rw [drain_incomplete hs] at hm
      cases hm
    | fault f =>
      rw [drain_fault hs] at hm
      cases hm

end BlockDuel.Wire
