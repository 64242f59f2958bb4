import BlockDuel.Wire.Message

/-!
Writing a value and reading it again. Every layout that travels in a frame is lawful, a record because
its fields are, so the value of a message is the value that it was made to carry.
-/
namespace BlockDuel.Wire

namespace Layout

instance : LawfulLayout Unit where
  length_put _ := rfl
  get_put _ := rfl
  put_get _ hl := (List.length_eq_zero_iff.mp hl).symm

/-- A word is lawful on as many octets as tell its values apart. -/
theorem lawful_word {α : Type} (w : Nat) (toNat : α → Nat) (ofNat : Nat → α)
    (toNat_lt : ∀ a, toNat a < Digits.span w) (ofNat_toNat : ∀ a, ofNat (toNat a) = a)
    (toNat_ofNat : ∀ n, n < Digits.span w → toNat (ofNat n) = n) :
    @LawfulLayout α ⟨w, fun a => Digits.write w (toNat a), fun bs => ofNat (Digits.value bs)⟩ :=
  letI : Layout α := ⟨w, fun a => Digits.write w (toNat a), fun bs => ofNat (Digits.value bs)⟩
  { length_put := fun a => Digits.length_write w (toNat a)
    get_put := fun a => by
      change ofNat (Digits.value (Digits.write w (toNat a))) = a
      rw [Digits.value_write, Nat.mod_eq_of_lt (toNat_lt a), ofNat_toNat]
    put_get := fun bs hl => by
      have hw : bs.length = w := hl
      have hlt : Digits.value bs < Digits.span w := hw ▸ Digits.value_lt bs
      change Digits.write w (toNat (ofNat (Digits.value bs))) = bs
      rw [toNat_ofNat _ hlt, ← hw, Digits.write_value] }

instance : LawfulLayout UInt32 :=
  lawful_word 4 UInt32.toNat UInt32.ofNat UInt32.toNat_lt (fun _ => UInt32.ofNat_toNat)
    fun _ => UInt32.toNat_ofNat_of_lt

instance : LawfulLayout UInt64 :=
  lawful_word 8 UInt64.toNat UInt64.ofNat UInt64.toNat_lt (fun _ => UInt64.ofNat_toNat)
    fun _ => UInt64.toNat_ofNat_of_lt

/-- A signed word is laid out as the unsigned one with the same octets. -/
instance : LawfulLayout Int32 where
  length_put n := LawfulLayout.length_put n.toUInt32
  get_put n := by
    change (get (put n.toUInt32) : UInt32).toInt32 = n
    rw [LawfulLayout.get_put, Int32.toInt32_toUInt32]
  put_get bs hl := by
    change put (get bs : UInt32).toInt32.toUInt32 = bs
    rw [UInt32.toUInt32_toInt32]
    exact LawfulLayout.put_get bs hl

section

variable {α β : Type} [Layout α] [Layout β] [LawfulLayout α]

instance [LawfulLayout β] : LawfulLayout (α × β) where
  length_put p := by
    change (put p.1 ++ put p.2).length = width α + width β
    rw [List.length_append, LawfulLayout.length_put, LawfulLayout.length_put]
  get_put p := by
    have hl : (put p.1).length = width α := LawfulLayout.length_put p.1
    change (get ((put p.1 ++ put p.2).take (width α)),
      get ((put p.1 ++ put p.2).drop (width α))) = p
    rw [List.take_left' hl, List.drop_left' hl, LawfulLayout.get_put, LawfulLayout.get_put]
  put_get bs hl := by
    have hw : bs.length = width α + width β := hl
    change put (get (bs.take (width α)) : α) ++ put (get (bs.drop (width α)) : β) = bs
    rw [LawfulLayout.put_get, LawfulLayout.put_get, List.take_append_drop]
    · rw [List.length_drop]
      omega
    · rw [List.length_take]
      omega

theorem length_putMany (as : List α) : (putMany as).length = as.length * width α := by
  induction as with
  | nil => simp [putMany]
  | cons a as ih =>
    change (put a ++ putMany as).length = _
    rw [List.length_append, LawfulLayout.length_put, ih, List.length_cons, Nat.succ_mul,
      Nat.add_comm]

theorem getMany_putMany (as : List α) : getMany as.length (putMany as) = as := by
  induction as with
  | nil => rfl
  | cons a as ih =>
    have hl : (put a).length = width α := LawfulLayout.length_put a
    change get ((put a ++ putMany as).take (width α)) ::
      getMany as.length ((put a ++ putMany as).drop (width α)) = a :: as
    rw [List.take_left' hl, List.drop_left' hl, LawfulLayout.get_put, ih]

theorem putMany_getMany (n : Nat) (bs : Bytes) (hl : bs.length = n * width α) :
    putMany (getMany n bs : List α) = bs := by
  induction n generalizing bs with
  | zero =>
    rw [Nat.zero_mul, List.length_eq_zero_iff] at hl
    rw [hl]
    rfl
  | succ n ih =>
    rw [Nat.succ_mul] at hl
    change put (get (bs.take (width α)) : α) ++ putMany (getMany n (bs.drop (width α))) = bs
    rw [LawfulLayout.put_get, ih, List.take_append_drop]
    · rw [List.length_drop]
      omega
    · rw [List.length_take]
      omega

instance {n : Nat} : LawfulLayout (Vector α n) where
  length_put v := by
    change (putMany v.toList).length = n * width α
    rw [length_putMany, Vector.length_toList]
  get_put v := by
    apply Vector.toList_inj.mp
    change getMany n (putMany v.toList) = v.toList
    have hv : v.toList.length = n := Vector.length_toList
    have hg := getMany_putMany v.toList
    rw [hv] at hg
    exact hg
  put_get bs hl := putMany_getMany n bs hl

end

/-- A record is lawful if it is no more and no less than the tuple of its fields. -/
theorem lawful_ofTuple {α β : Type} [Layout β] [LawfulLayout β] (fields : α → β) (build : β → α)
    (build_fields : ∀ a, build (fields a) = a) (fields_build : ∀ b, fields (build b) = b) :
    @LawfulLayout α (ofTuple fields build) :=
  letI : Layout α := ofTuple fields build
  { length_put := fun a => LawfulLayout.length_put (fields a)
    get_put := fun a => by
      change build (get (put (fields a))) = a
      rw [LawfulLayout.get_put, build_fields]
    put_get := fun bs hl => by
      change put (fields (build (get bs))) = bs
      rw [fields_build]
      exact LawfulLayout.put_get bs hl }

instance : LawfulLayout Falling :=
  lawful_ofTuple (fun f : Falling => (f.kind, f.x, f.y, f.rotation))
    (fun (k, x, y, r) => (⟨k, x, y, r⟩ : Falling)) (fun _ => rfl) (fun _ => rfl)

instance : LawfulLayout Preview :=
  lawful_ofTuple Preview.kinds Preview.mk (fun _ => rfl) (fun _ => rfl)

instance : LawfulLayout Board :=
  lawful_ofTuple Board.cells Board.mk (fun _ => rfl) (fun _ => rfl)

instance : LawfulLayout Verdict :=
  lawful_ofTuple (fun v : Verdict => (v.winner, v.loser)) (fun (w, l) => (⟨w, l⟩ : Verdict))
    (fun _ => rfl) (fun _ => rfl)

instance : LawfulLayout Player :=
  lawful_ofTuple (fun p : Player => (p.id, p.avatar)) (fun (i, a) => (⟨i, a⟩ : Player))
    (fun _ => rfl) (fun _ => rfl)

end Layout

namespace Payload

section

variable {α : Type} [Layout α]

theorem read_of_length {bs : Bytes} (hl : bs.length = Layout.width α) :
    (read bs : Except SizeMismatch α) = .ok (Layout.get bs) := if_pos hl

theorem read_of_mismatch {bs : Bytes} (hl : bs.length ≠ Layout.width α) :
    (read bs : Except SizeMismatch α) = .error ⟨Layout.width α, bs.length⟩ := if_neg hl

/-- A value of a fixed width is refused for the length only. -/
theorem read_eq_error_iff {bs : Bytes} {e : SizeMismatch} :
    (read bs : Except SizeMismatch α) = .error e ↔
      bs.length ≠ Layout.width α ∧ e = ⟨Layout.width α, bs.length⟩ := by
  by_cases hl : bs.length = Layout.width α
  · rw [read_of_length hl]
    simp [hl]
  · rw [read_of_mismatch hl]
    simp [hl, eq_comm]

/-- A value is read from what it is written as and from nothing else. -/
theorem read_eq_ok_iff [LawfulLayout α] {bs : Bytes} {a : α} : read bs = .ok a ↔ write a = bs := by
  constructor
  · intro h
    by_cases hl : bs.length = Layout.width α
    · rw [read_of_length hl] at h
      cases h
      exact LawfulLayout.put_get bs hl
    · rw [read_of_mismatch hl] at h
      cases h
  · rintro rfl
    have hg : Layout.get (Layout.put a) = a := LawfulLayout.get_put a
    have hr : (read (write a) : Except SizeMismatch α) = .ok (Layout.get (Layout.put a)) :=
      read_of_length (LawfulLayout.length_put a)
    rw [hr, hg]

end

/-- How many players a list declares. -/
def rosterCount (bs : Bytes) : Nat := Digits.value (bs.take 4)

variable {bs : Bytes} {ps : List Player}

theorem length_roster (ps : List Player) : (write ps).length = 4 + ps.length * 8 := by
  change (Digits.write 4 ps.length ++ Layout.putMany ps).length = _
  rw [List.length_append, Digits.length_write, Layout.length_putMany]
  rfl

theorem rosterCount_lt (hl : 4 ≤ bs.length) : rosterCount bs < UInt32.size := by
  have hlt := Digits.value_lt (bs.take 4)
  rw [List.length_take_of_le hl] at hlt
  exact hlt

/-- Players are read if there are as many as declared. -/
theorem read_roster_of_length (hl : bs.length = 4 + rosterCount bs * 8) :
    read bs = .ok (Layout.getMany (rosterCount bs) (bs.drop 4) : List Player) := by
  have hshort : ¬ bs.length < 4 := by omega
  have hbody : (bs.drop 4).length = Digits.value (bs.take 4) * Layout.width Player := by
    rw [List.length_drop, hl, Nat.add_sub_cancel_left]
    rfl
  simp only [read]
  rw [if_neg hshort, if_pos hbody]
  rfl

theorem read_roster_of_short (hl : bs.length < 4) :
    (read bs : Except SizeMismatch (List Player)) = .error ⟨4, bs.length⟩ := if_pos hl

theorem read_roster_of_mismatch (hl : 4 ≤ bs.length) (hn : bs.length ≠ 4 + rosterCount bs * 8) :
    (read bs : Except SizeMismatch (List Player)) = .error ⟨4 + rosterCount bs * 8, bs.length⟩ := by
  have hshort : ¬ bs.length < 4 := Nat.not_lt.mpr hl
  have hbody : ¬ (bs.drop 4).length = Digits.value (bs.take 4) * Layout.width Player := by
    rw [List.length_drop]
    intro hb
    have hc : bs.length - 4 = rosterCount bs * 8 := hb
    omega
  simp only [read]
  rw [if_neg hshort, if_neg hbody]
  rfl

/-- A list of players is read if its length fits the four octets in front. -/
theorem read_write_roster (hps : ps.length < UInt32.size) : read (write ps) = .ok ps := by
  have hw : write ps = Digits.write 4 ps.length ++ Layout.putMany ps := rfl
  have h4 : (Digits.write 4 ps.length).length = 4 := Digits.length_write 4 ps.length
  have hcount : rosterCount (write ps) = ps.length := by
    unfold rosterCount
    rw [hw, List.take_left' h4, Digits.value_write]
    exact Nat.mod_eq_of_lt hps
  have hl : (write ps).length = 4 + rosterCount (write ps) * 8 := by
    rw [hcount, length_roster]
  rw [read_roster_of_length hl, hcount, hw, List.drop_left' h4, Layout.getMany_putMany]

/-- What is read as a list of players is what the list is written as. -/
theorem write_of_read_roster (h : read bs = .ok ps) : ps.length < UInt32.size ∧ write ps = bs := by
  by_cases hl : bs.length < 4
  · rw [read_roster_of_short hl] at h
    cases h
  · have hle : 4 ≤ bs.length := Nat.le_of_not_lt hl
    by_cases hn : bs.length = 4 + rosterCount bs * 8
    · rw [read_roster_of_length hn] at h
      cases h
      have hbody : (bs.drop 4).length = rosterCount bs * Layout.width Player := by
        rw [List.length_drop, hn, Nat.add_sub_cancel_left]
        rfl
      have hfront : Digits.write 4 (rosterCount bs) = bs.take 4 := by
        have hw := Digits.write_value (bs.take 4)
        rw [List.length_take_of_le hle] at hw
        exact hw
      rw [Layout.length_getMany]
      refine ⟨rosterCount_lt hle, ?_⟩
      change Digits.write 4 (Layout.getMany (rosterCount bs) (bs.drop 4) : List Player).length ++
        Layout.putMany (Layout.getMany (rosterCount bs) (bs.drop 4) : List Player) = bs
      rw [Layout.length_getMany, Layout.putMany_getMany _ _ hbody, hfront, List.take_append_drop]
    · rw [read_roster_of_mismatch hle hn] at h
      cases h

end Payload

namespace Message

section

variable {α : Type} [Payload α] {m : Message}

theorem read_eq_ok_iff {a : α} : m.read α = .ok a ↔ Payload.read m.payload = .ok a := by
  unfold read
  cases (Payload.read m.payload : Except SizeMismatch α) <;> simp

/-- A message is not read for the reason that its payload is not. -/
theorem read_eq_error_iff {f : Fault} :
    m.read α = .error f ↔ ∃ e, (Payload.read m.payload : Except SizeMismatch α) = .error e ∧
      f = .payloadSize m.kind e.expected e.actual := by
  unfold read
  cases (Payload.read m.payload : Except SizeMismatch α) <;> simp [eq_comm]

theorem read?_of_read {a : α} (h : Payload.read m.payload = .ok a) : m.read? α = some a := by
  unfold read?
  rw [read_eq_ok_iff.mpr h]
  rfl

end

section

variable {α : Type} [Layout α]

/-- A value of a fixed width is read unless the payload has another length. -/
theorem read?_eq_none_iff {m : Message} :
    m.read? α = none ↔ m.payload.length ≠ Layout.width α := by
  unfold read? read
  by_cases hl : m.payload.length = Layout.width α
  · rw [Payload.read_of_length hl]
    simp [hl, Except.toOption]
  · rw [Payload.read_of_mismatch hl]
    simp [hl, Except.toOption]

variable [LawfulLayout α]

theorem length_carrying (k : Kind) (a : α) : (carrying k a).payload.length = Layout.width α :=
  LawfulLayout.length_put a

@[simp] theorem read?_carrying (k : Kind) (a : α) : (carrying k a).read? α = some a :=
  read?_of_read (Payload.read_eq_ok_iff.mpr rfl)

end

theorem length_roster (k : Kind) (ps : List Player) :
    (carrying k ps).payload.length = 4 + ps.length * 8 := Payload.length_roster ps

theorem read?_roster (k : Kind) {ps : List Player} (hps : ps.length < UInt32.size) :
    (carrying k ps).read? (List Player) = some ps := read?_of_read (Payload.read_write_roster hps)

end Message
end BlockDuel.Wire
