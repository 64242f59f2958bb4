import BlockDuel.Snapshot

/-!
Tables by player, kept in the order in which players were first entered. Each player has at most one
entry; entering a player again replaces the value and keeps the place.
-/
namespace BlockDuel

structure Table (α : Type) where
  entries : List (PlayerId × α)

namespace Table

variable {α : Type}

def empty : Table α := ⟨[]⟩

def ids (t : Table α) : List PlayerId := t.entries.map Prod.fst

def values (t : Table α) : List α := t.entries.map Prod.snd

def size (t : Table α) : Nat := t.entries.length

def get? (t : Table α) (id : PlayerId) : Option α :=
  (t.entries.find? (·.1 == id)).map Prod.snd

def contains (t : Table α) (id : PlayerId) : Bool := t.entries.any (·.1 == id)

/-- Replaces the value of a player, or enters the player at the end. -/
def put (t : Table α) (id : PlayerId) (a : α) : Table α :=
  if t.contains id then ⟨t.entries.map fun e => if e.1 == id then (id, a) else e⟩
  else ⟨t.entries ++ [(id, a)]⟩

def adjust (t : Table α) (id : PlayerId) (f : α → α) : Table α :=
  ⟨t.entries.map fun e => if e.1 == id then (e.1, f e.2) else e⟩

def erase (t : Table α) (id : PlayerId) : Table α := ⟨t.entries.filter (·.1 != id)⟩

variable {t : Table α} {id other : PlayerId} {a : α} {e : PlayerId × α} {f : α → α}

theorem contains_iff : t.contains id = true ↔ id ∈ t.ids := by
  simp [contains, ids]

theorem get?_eq_none_iff : t.get? id = none ↔ id ∉ t.ids := by
  simp only [get?, Option.map_eq_none_iff, List.find?_eq_none, ids, List.mem_map, beq_iff_eq]
  constructor
  · rintro h ⟨e, he, rfl⟩
    exact h e he rfl
  · intro h e he hid
    exact h ⟨e, he, hid⟩

theorem exists_get? (h : id ∈ t.ids) : ∃ a, t.get? id = some a := by
  apply Option.ne_none_iff_exists'.mp
  rw [ne_eq, get?_eq_none_iff, Decidable.not_not]
  exact h

theorem mem_of_get? (h : t.get? id = some a) : (id, a) ∈ t.entries := by
  obtain ⟨e, he, rfl⟩ := Option.map_eq_some_iff.mp h
  have hid : e.1 = id := by simpa using List.find?_some he
  subst id
  exact List.mem_of_find?_eq_some he

theorem mem_ids_of_get? (h : t.get? id = some a) : id ∈ t.ids :=
  List.mem_map_of_mem (mem_of_get? h)

@[simp] theorem ids_adjust : (t.adjust id f).ids = t.ids := by
  simp only [adjust, ids, List.map_map]
  apply List.map_congr_left
  intro e _
  simp only [Function.comp_apply]
  split <;> rfl

@[simp] theorem ids_erase : (t.erase id).ids = t.ids.filter (· != id) := by
  simp [erase, ids, List.filter_map, Function.comp_def]

theorem erase_absent (h : id ∉ t.ids) : t.erase id = t := by
  have hf : t.entries.filter (·.1 != id) = t.entries := by
    rw [List.filter_eq_self]
    intro e he
    rw [bne_iff_ne]
    rintro rfl
    exact h (List.mem_map_of_mem he)
  simp [erase, hf]

theorem adjust_absent (h : id ∉ t.ids) : t.adjust id f = t := by
  have hsame : ∀ e ∈ t.entries, (if e.1 == id then (e.1, f e.2) else e) = e := by
    intro e he
    rw [if_neg]
    rw [beq_iff_eq]
    rintro rfl
    exact h (List.mem_map_of_mem he)
  unfold adjust
  rw [List.map_congr_left hsame, List.map_id']

theorem ids_put_new (h : id ∉ t.ids) : (t.put id a).ids = t.ids ++ [id] := by
  have hc : t.contains id = false := by
    rw [Bool.eq_false_iff, ne_eq, contains_iff]
    exact h
  simp [put, hc, ids]

theorem mem_ids_erase : other ∈ (t.erase id).ids ↔ other ∈ t.ids ∧ other ≠ id := by
  rw [ids_erase, List.mem_filter, bne_iff_ne]

theorem mem_ids_put_new (h : id ∉ t.ids) :
    other ∈ (t.put id a).ids ↔ other ∈ t.ids ∨ other = id := by
  rw [ids_put_new h, List.mem_append, List.mem_singleton]

theorem mem_erase : e ∈ (t.erase id).entries ↔ e ∈ t.entries ∧ e.1 ≠ id := by
  simp [erase]

theorem mem_put_new (h : id ∉ t.ids) :
    e ∈ (t.put id a).entries ↔ e ∈ t.entries ∨ e = (id, a) := by
  have hc : t.contains id = false := by
    rw [Bool.eq_false_iff, ne_eq, contains_iff]
    exact h
  simp [put, hc]

theorem mem_adjust (h : e ∈ (t.adjust id f).entries) :
    ∃ b, (e.1, b) ∈ t.entries ∧ (e.2 = b ∨ e.2 = f b) := by
  obtain ⟨⟨i, b⟩, hb, rfl⟩ := List.mem_map.mp h
  dsimp only
  split
  · exact ⟨b, hb, .inr rfl⟩
  · exact ⟨b, hb, .inl rfl⟩

theorem get?_put_other (hn : id ∉ t.ids) (h : other ≠ id) : (t.put id a).get? other = t.get? other := by
  have hc : t.contains id = false := by
    rw [Bool.eq_false_iff, ne_eq, contains_iff]
    exact hn
  simp [put, hc, get?, h.symm]

theorem get?_put_new (hn : id ∉ t.ids) : (t.put id a).get? id = some a := by
  have hc : t.contains id = false := by
    rw [Bool.eq_false_iff, ne_eq, contains_iff]
    exact hn
  have hnone := Option.map_eq_none_iff.mp (get?_eq_none_iff.mpr hn)
  simp [put, hc, get?, List.find?_append, hnone]

theorem get?_erase_other (h : other ≠ id) : (t.erase id).get? other = t.get? other := by
  unfold get? erase
  rw [List.find?_filter]
  congr 2
  funext e
  by_cases he : e.1 = other <;> simp [he, h]

theorem get?_adjust : (t.adjust id f).get? other =
    if other = id then (t.get? other).map f else t.get? other := by
  unfold get? adjust
  rw [List.find?_map]
  have hsame : ((·.1 == other) ∘ fun e : PlayerId × α => if e.1 == id then (e.1, f e.2) else e) =
      (·.1 == other) := by
    funext e
    simp only [Function.comp_apply]
    split <;> rfl
  rw [hsame]
  cases he : t.entries.find? (·.1 == other) with
  | none => simp
  | some e =>
    have hid : e.1 = other := by simpa using List.find?_some he
    by_cases h : other = id <;> simp [hid, h]

end Table
end BlockDuel
