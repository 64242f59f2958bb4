import BlockDuel.Table

/-!
The roll of a hall: the links that are there and the players who registered over them. A registration
needs a link and is made once; its player carries the number of the link whatever the player claimed.
-/
namespace BlockDuel.Hall

abbrev Time := Nat

structure Registration where
  id : PlayerId
  validated : Bool
  /-- When the player was last heard to be alive. -/
  lastPong : Time
  player : Player
  /-- The link is being cut and its loss has not been seen yet. -/
  closing : Bool
  deriving DecidableEq, Repr

structure Roll where
  links : List PlayerId
  registrations : Table Registration

namespace Roll

def empty : Roll := ⟨[], .empty⟩

/-- A new link, or a new one in place of an old one of the same number. -/
def insert (r : Roll) (id : PlayerId) : Roll :=
  if r.links.contains id then r else { r with links := r.links ++ [id] }

def hasLink (r : Roll) (id : PlayerId) : Bool := r.links.contains id

def registration? (r : Roll) (id : PlayerId) : Option Registration := r.registrations.get? id

def isValidated (r : Roll) (id : PlayerId) : Bool :=
  (r.registration? id).any Registration.validated

/-- Registers a player over the link `id`, unless there is no such link or it has a player. -/
def register (r : Roll) (id : PlayerId) (p : Player) (now : Time) : Option Player × Roll :=
  if !r.hasLink id ∨ r.registrations.contains id then (none, r)
  else
    let p := { p with id := id }
    (some p, { r with registrations := r.registrations.put id ⟨id, true, now, p, false⟩ })

def adjust (r : Roll) (id : PlayerId) (f : Registration → Registration) : Roll :=
  { r with registrations := r.registrations.adjust id f }

/-- Strikes the registration and keeps the link. -/
def withdraw (r : Roll) (id : PlayerId) : Option Registration × Roll :=
  (r.registration? id, { r with registrations := r.registrations.erase id })

/-- Strikes the link and the registration. -/
def remove (r : Roll) (id : PlayerId) : (Bool × Option Registration) × Roll :=
  ((r.hasLink id, r.registration? id),
    ⟨r.links.filter (· != id), r.registrations.erase id⟩)

variable {r : Roll} {id other : PlayerId} {p : Player} {now : Time}

theorem hasLink_iff : r.hasLink id = true ↔ id ∈ r.links := by
  simp [hasLink]

theorem hasLink_eq_false_iff : r.hasLink id = false ↔ id ∉ r.links := by
  rw [Bool.eq_false_iff, ne_eq, hasLink_iff]

theorem mem_links_insert : other ∈ (r.insert id).links ↔ other ∈ r.links ∨ other = id := by
  unfold insert
  split
  · next h =>
    have hid : id ∈ r.links := by simpa using h
    constructor
    · exact .inl
    · rintro (ho | rfl)
      · exact ho
      · exact hid
  · simp

theorem nodup_links_insert (h : r.links.Nodup) : (r.insert id).links.Nodup := by
  unfold insert
  split
  · exact h
  · next hid =>
    rw [List.nodup_append]
    refine ⟨h, by simp, ?_⟩
    intro a ha b hb
    rw [List.mem_singleton] at hb
    subst b
    rintro rfl
    exact hid (by simpa using ha)

@[simp] theorem registrations_insert : (r.insert id).registrations = r.registrations := by
  unfold insert
  split <;> rfl

theorem isValidated_of_registration {g : Registration} (h : r.registration? id = some g) :
    r.isValidated id = g.validated := by
  simp [isValidated, h]

/-- A registration is made over a link that has none. -/
theorem register_new (hl : id ∈ r.links) (hn : id ∉ r.registrations.ids) :
    r.register id p now = (some { p with id := id },
      { r with registrations := r.registrations.put id ⟨id, true, now, { p with id := id }, false⟩ }) := by
  have hc : r.registrations.contains id = false := by
    rw [Bool.eq_false_iff, ne_eq, Table.contains_iff]
    exact hn
  simp [register, hasLink, hl, hc]

theorem register_repeated (hr : id ∈ r.registrations.ids) : r.register id p now = (none, r) := by
  have hc : r.registrations.contains id = true := Table.contains_iff.mpr hr
  simp [register, hc]

theorem mem_links_remove : other ∈ (r.remove id).2.links ↔ other ∈ r.links ∧ other ≠ id := by
  simp [remove]

theorem adjust_absent {f : Registration → Registration} (hr : id ∉ r.registrations.ids) :
    r.adjust id f = r := by
  unfold adjust
  rw [Table.adjust_absent hr]

theorem remove_absent (hl : id ∉ r.links) (hr : id ∉ r.registrations.ids) :
    (r.remove id).2 = r := by
  have hf : r.links.filter (· != id) = r.links := by
    rw [List.filter_eq_self]
    intro a ha
    rw [bne_iff_ne]
    rintro rfl
    exact hl ha
  simp [remove, hf, Table.erase_absent hr]

end Roll

def firstPlayer : PlayerId := 10000

structure Ids where
  next : PlayerId
  deriving DecidableEq, Repr

namespace Ids

def start : Ids := ⟨firstPlayer⟩

def take (i : Ids) : PlayerId × Ids := (i.next, ⟨i.next + 1⟩)

def takeMany : Nat → Ids → List PlayerId × Ids
  | 0, i => ([], i)
  | n + 1, i =>
    let (id, i) := i.take
    let (ids, i) := takeMany n i
    (id :: ids, i)

end Ids
end BlockDuel.Hall
