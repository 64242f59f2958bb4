import BlockDuel.Hall.Ruling

/-!
The rooms that there can be. Whatever is asked of a room, it has one of three shapes, and a member who
has seen the other one leave a match waits in a room that still has the seed. A hall takes no member out
of a running match without a ruling, and a ruling empties the room; so in a hall no such seed is left. On
these shapes every operation of a room is a plain equation.
-/
namespace BlockDuel.Hall
namespace Room

/-- Nobody is in the room, one member waits, maybe with the seed of a match that is no more, or two
different members play. -/
inductive Shaped : Room → Prop
  | empty : Shaped fresh
  | waiting (a : PlayerId) (left : Option UInt64) : Shaped ⟨[a], .waitingForSecond, left⟩
  | playing {a b : PlayerId} (ne : a ≠ b) (seed : UInt64) : Shaped ⟨[a, b], .ready, some seed⟩

/-- Nobody is in the room, one member waits, or two different members play, and only a match has a
seed. -/
inductive Sound : Room → Prop
  | empty : Sound fresh
  | waiting (a : PlayerId) : Sound ⟨[a], .waitingForSecond, none⟩
  | playing {a b : PlayerId} (ne : a ≠ b) (seed : UInt64) : Sound ⟨[a, b], .ready, some seed⟩

/-- A match between `x` and `y` is running. -/
structure Pits (r : Room) (x y : PlayerId) : Prop where
  ne : x ≠ y
  ready : r.phase = .ready
  members : r.members = [x, y] ∨ r.members = [y, x]

variable {r : Room} {x y id a : PlayerId} {seed : UInt64}

theorem isMember_iff : r.isMember id = true ↔ id ∈ r.members := by
  simp [isMember]

theorem Shaped.nodup (h : r.Shaped) : r.members.Nodup := by
  cases h with
  | empty => exact List.nodup_nil
  | waiting a left => simp
  | playing ne => simp [ne]

theorem Shaped.length_le (h : r.Shaped) : r.members.length ≤ roomCapacity := by
  cases h <;> simp [fresh, roomCapacity]

theorem Shaped.phase_iff (h : r.Shaped) :
    (r.phase = .empty ↔ r.members.length = 0) ∧
      (r.phase = .waitingForSecond ↔ r.members.length = 1) ∧
      (r.phase = .ready ↔ r.members.length = 2) := by
  cases h <;> simp [fresh]

theorem Shaped.pits (h : r.Shaped) (hr : r.phase = .ready) (hx : x ∈ r.members) :
    ∃ y, r.Pits x y := by
  cases h with
  | empty => cases hr
  | waiting a left => cases hr
  | @playing a b ne seed =>
    have hm : x = a ∨ x = b := by simpa using hx
    rcases hm with rfl | rfl
    · exact ⟨b, ne, rfl, .inl rfl⟩
    · exact ⟨a, ne.symm, rfl, .inr rfl⟩

theorem Sound.shaped (h : r.Sound) : r.Shaped := by
  cases h with
  | empty => exact .empty
  | waiting a => exact .waiting a none
  | playing ne seed => exact .playing ne seed

theorem Sound.nodup (h : r.Sound) : r.members.Nodup := h.shaped.nodup

theorem Sound.length_le (h : r.Sound) : r.members.length ≤ roomCapacity := h.shaped.length_le

theorem Sound.phase_iff (h : r.Sound) :
    (r.phase = .empty ↔ r.members.length = 0) ∧
      (r.phase = .waitingForSecond ↔ r.members.length = 1) ∧
      (r.phase = .ready ↔ r.members.length = 2) := h.shaped.phase_iff

theorem Sound.pits (h : r.Sound) (hr : r.phase = .ready) (hx : x ∈ r.members) :
    ∃ y, r.Pits x y := h.shaped.pits hr hx

theorem Sound.seed_isSome (h : r.Sound) : r.seed.isSome ↔ r.phase = .ready := by
  cases h <;> simp [fresh]

theorem Sound.eq_fresh (h : r.Sound) (hm : r.members = []) : r = fresh := by
  cases h with
  | empty => rfl
  | waiting a => cases hm
  | playing ne seed => cases hm

/-- Without a match, a member is alone. -/
theorem Sound.eq_waiting (h : r.Sound) (hr : r.phase ≠ .ready) (hx : x ∈ r.members) :
    r = ⟨[x], .waitingForSecond, none⟩ := by
  cases h with
  | empty => simp [fresh] at hx
  | waiting a =>
    have hxa : x = a := by simpa using hx
    rw [hxa]
  | playing ne seed => exact absurd rfl hr

theorem Pits.symm (h : r.Pits x y) : r.Pits y x := ⟨h.ne.symm, h.ready, h.members.symm⟩

theorem Pits.mem (h : r.Pits x y) : x ∈ r.members := by
  rcases h.members with hm | hm <;> simp [hm]

theorem Pits.mem_iff (h : r.Pits x y) : id ∈ r.members ↔ id = x ∨ id = y := by
  rcases h.members with hm | hm
  · simp [hm]
  · simp [hm, or_comm]

theorem Pits.other? (h : r.Pits x y) : r.other? x = some y := by
  have hn := h.ne.symm
  rcases h.members with hm | hm <;> simp [Room.other?, hm, hn]

theorem Pits.arbitrate (h : r.Pits x y) : r.arbitrate x = (some ⟨y, x⟩, fresh) := by
  have hx := isMember_iff.mpr h.mem
  simp [Room.arbitrate, conclude, h.ready, hx, h.other?]

theorem arbitrate_of_not_playing (h : r.phase = .ready → x ∉ r.members) :
    r.arbitrate x = (none, r) := by
  unfold Room.arbitrate
  rw [if_pos]
  by_cases hr : r.phase = .ready
  · right
    rw [Bool.not_eq_true', Bool.eq_false_iff, ne_eq, isMember_iff]
    exact h hr
  · exact .inl hr

/-- A report reaches the other member of the match. -/
theorem Pits.route {k : Wire.Kind} (h : r.Pits x y) (hk : k.relayed = true) :
    r.route x k = .forward y := by
  have hx := isMember_iff.mpr h.mem
  simp [Room.route, hk, h.ready, hx, h.other?]

theorem route_of_not_playing {k : Wire.Kind} (h : r.phase = .ready → x ∉ r.members) :
    ∃ reason, r.route x k = .drop reason := by
  unfold Room.route
  split
  · exact ⟨_, rfl⟩
  split
  · exact ⟨_, rfl⟩
  next hr =>
  have hx : r.isMember x = false := by
    rw [Bool.eq_false_iff, ne_eq, isMember_iff]
    exact h (by simpa using hr)
  rw [hx]
  exact ⟨_, rfl⟩

theorem join_member (h : id ∈ r.members) : r.join id seed = (.alreadyMember, r) := by
  have hm := isMember_iff.mpr h
  simp [join, joinM, hm]

theorem join_ready (hr : r.phase = .ready) (h : id ∉ r.members) :
    r.join id seed = (.notAdmitted, r) := by
  have hm : r.isMember id = false := by simpa [isMember] using h
  simp [join, joinM, hm, hr]

theorem join_fresh : fresh.join id seed = (.joined none none, ⟨[id], .waitingForSecond, none⟩) := rfl

theorem join_waiting {left : Option UInt64} (h : id ≠ a) :
    (⟨[a], .waitingForSecond, left⟩ : Room).join id seed =
      (.joined (some a) (some seed), ⟨[a, id], .ready, some seed⟩) := by
  simp [join, joinM, isMember, roomCapacity, h]

theorem leave_stranger (h : id ∉ r.members) : r.leave id = (none, r) := by
  have hm : r.isMember id = false := by simpa [isMember] using h
  simp [leave, hm]

theorem leave_member (h : id ∈ r.members) : (r.leave id).1 ≠ none := by
  have hm := isMember_iff.mpr h
  unfold leave
  rw [if_pos hm]
  dsimp only
  split <;> nofun

theorem leave_waiting {left : Option UInt64} :
    (leave ⟨[a], .waitingForSecond, left⟩ a).2 = fresh := by
  simp [leave, isMember]

/-- The one who stays waits in a room that keeps the seed. -/
theorem Pits.leave (h : r.Pits x y) :
    r.leave x = (some ⟨some y, .ready⟩, ⟨[y], .waitingForSecond, r.seed⟩) := by
  have hx := isMember_iff.mpr h.mem
  have hn := h.ne.symm
  rcases h.members with hm | hm
  · simp [Room.leave, hx, h.ready, hm]
  · simp [Room.leave, hx, h.ready, hm, hn]

end Room
end BlockDuel.Hall
