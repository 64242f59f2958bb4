import BlockDuel.Proofs.Wire.Cursor

/-!
Values and octets. For each type that travels in frames, the values and the octets of the right size are
the same thing, and reading looks at nothing that is not there.
-/
namespace BlockDuel.Wire

/-- What a value is written as is read as that value, and nothing else is. Octets of another size are
refused with the size that is needed and the one that is there, and a machine reads all octets without
coming to a halt. -/
structure Exact (α : Type) [Layout α] [Legible α] (size : Nat) : Prop where
  read_written (k : Kind) (a : α) : (Message.carrying k a).read α = .ok a
  written_of_read (k : Kind) (bs : Bytes) (a : α) :
    (⟨k, bs⟩ : Message).read α = .ok a → Payload.write a = bs
  refused_iff (k : Kind) (bs : Bytes) (f : Fault) :
    (⟨k, bs⟩ : Message).read α = .error f ↔
      bs.length ≠ size ∧ f = .payloadSize k size bs.length
  attempted (bs : Bytes) : (attempt α bs).run = some (Payload.read bs)

theorem exact_of_lawful (α : Type) [Layout α] [LawfulLayout α] [Legible α] {size : Nat}
    (hw : Layout.width α = size) (hs : size < UInt64.size) : Exact α size where
  read_written k a := Message.read_eq_ok_iff.mpr (Payload.read_eq_ok_iff.mpr rfl)
  written_of_read k bs a h := Payload.read_eq_ok_iff.mp (Message.read_eq_ok_iff.mp h)
  refused_iff k bs f := by
    rw [Message.read_eq_error_iff]
    simp only [Payload.read_eq_error_iff, hw]
    constructor
    · rintro ⟨e, ⟨hl, rfl⟩, hf⟩
      exact ⟨hl, hf⟩
    · rintro ⟨hl, hf⟩
      exact ⟨⟨size, bs.length⟩, ⟨hl, rfl⟩, hf⟩
  attempted bs := attempt_eq (hw ▸ hs) bs

/-- A list of players is refused if it is too short for the count in front or has another size than the
count says. -/
theorem roster_refused_iff (k : Kind) (bs : Bytes) (f : Fault) :
    (⟨k, bs⟩ : Message).read (List Player) = .error f ↔
      bs.length < 4 ∧ f = .payloadSize k 4 bs.length ∨
      4 ≤ bs.length ∧ (bs.drop 4).length ≠ 8 * Payload.rosterCount bs ∧
        f = .payloadSize k (4 + 8 * Payload.rosterCount bs) bs.length := by
  rw [Message.read_eq_error_iff, List.length_drop, Nat.mul_comm]
  by_cases hl : bs.length < 4
  · have hle : ¬ 4 ≤ bs.length := Nat.not_le.mpr hl
    rw [Payload.read_roster_of_short hl]
    simp [hl, hle, eq_comm]
  · have hle : 4 ≤ bs.length := Nat.le_of_not_lt hl
    by_cases hn : bs.length = 4 + Payload.rosterCount bs * 8
    · have hb : bs.length - 4 = Payload.rosterCount bs * 8 := by omega
      rw [Payload.read_roster_of_length hn]
      simp [hl, hb]
    · have hb : bs.length - 4 ≠ Payload.rosterCount bs * 8 := by omega
      rw [Payload.read_roster_of_mismatch hle hn]
      simp [hl, hle, hb, eq_comm]

/-- For each type that travels in frames, what is written is read back, only what was written is read, and
octets of another size are refused with the two sizes. A list of players is one of these types if its
length fits the four octets in front. No reading goes out of range or computes a size that is no machine
word, whatever the octets are. -/
theorem payloads_exact :
    Exact Unit 0 ∧ Exact UInt32 4 ∧ Exact UInt64 8 ∧ Exact Falling 16 ∧ Exact Preview 20 ∧
    Exact Board 920 ∧ Exact Verdict 8 ∧ Exact Player 8 ∧
    (∀ (k : Kind) (ps : List Player), ps.length < UInt32.size →
      (Message.carrying k ps).read (List Player) = .ok ps) ∧
    (∀ (k : Kind) (bs : Bytes) (ps : List Player), (⟨k, bs⟩ : Message).read (List Player) = .ok ps →
      ps.length < UInt32.size ∧ Payload.write ps = bs) ∧
    (∀ (k : Kind) (bs : Bytes) (f : Fault), (⟨k, bs⟩ : Message).read (List Player) = .error f ↔
      bs.length < 4 ∧ f = .payloadSize k 4 bs.length ∨
      4 ≤ bs.length ∧ (bs.drop 4).length ≠ 8 * Payload.rosterCount bs ∧
        f = .payloadSize k (4 + 8 * Payload.rosterCount bs) bs.length) ∧
    ∀ bs, (attemptRoster bs).run = some (Payload.read bs) := by
  refine ⟨exact_of_lawful Unit rfl (by decide), exact_of_lawful UInt32 rfl (by decide),
    exact_of_lawful UInt64 rfl (by decide), exact_of_lawful Falling rfl (by decide),
    exact_of_lawful Preview rfl (by decide), exact_of_lawful Board rfl (by decide),
    exact_of_lawful Verdict rfl (by decide), exact_of_lawful Player rfl (by decide), ?_, ?_,
    roster_refused_iff, attemptRoster_eq⟩
  · intro k ps hps
    exact Message.read_eq_ok_iff.mpr (Payload.read_write_roster hps)
  · intro k bs ps h
    exact Payload.write_of_read_roster (Message.read_eq_ok_iff.mp h)

/-- Two players are read back in their order, and without the last octet they are refused. -/
theorem cut_roster_refused :
    let ps : List Player := [⟨10000, 2⟩, ⟨10001, 0⟩]
    let cut : Bytes := [2, 0, 0, 0, 16, 39, 0, 0, 2, 0, 0, 0, 17, 39, 0, 0, 0, 0, 0]
    Payload.write ps = cut ++ [0] ∧ (Message.roomPlayerList ps).read (List Player) = .ok ps ∧
      (⟨.roomPlayerList, cut⟩ : Message).read (List Player) =
        .error (.payloadSize .roomPlayerList 20 19) := by
  intro ps cut
  obtain ⟨-, -, -, -, -, -, -, -, hread, -, hrefused, -⟩ := payloads_exact
  have hcount : Payload.rosterCount cut = 2 := rfl
  refine ⟨by decide, hread _ ps (by decide), (hrefused _ cut _).mpr (.inr ?_)⟩
  rw [hcount]
  exact ⟨by decide, by decide, rfl⟩

end BlockDuel.Wire
