import BlockDuel.Hall.Roll

/-!
A roll in good order: every registration is over a link, is validated, and carries the number of its
link in both places; no link and no player is entered twice. Everything that a hall does to its roll
keeps it in order.
-/
namespace BlockDuel.Hall
namespace Roll

structure Orderly (r : Roll) : Prop where
  links_nodup : r.links.Nodup
  ids_nodup : r.registrations.ids.Nodup
  linked : ∀ id ∈ r.registrations.ids, id ∈ r.links
  genuine : ∀ e ∈ r.registrations.entries,
    e.2.validated = true ∧ e.2.id = e.1 ∧ e.2.player.id = e.1

variable {r : Roll} {id : PlayerId}

theorem orderly_empty : empty.Orderly := by
  constructor <;> simp [empty, Table.empty, Table.ids]

theorem Orderly.insert (h : r.Orderly) (id : PlayerId) : (r.insert id).Orderly := by
  constructor
  · exact nodup_links_insert h.links_nodup
  · rw [registrations_insert]
    exact h.ids_nodup
  · intro other ho
    rw [registrations_insert] at ho
    exact mem_links_insert.mpr (.inl (h.linked other ho))
  · rw [registrations_insert]
    exact h.genuine

theorem Orderly.enter (h : r.Orderly) {g : Registration} (hl : id ∈ r.links)
    (hn : id ∉ r.registrations.ids) (hg : g.validated = true ∧ g.id = id ∧ g.player.id = id) :
    Orderly { r with registrations := r.registrations.put id g } := by
  constructor
  · exact h.links_nodup
  · change (r.registrations.put id g).ids.Nodup
    rw [Table.ids_put_new hn]
    rw [List.nodup_append]
    refine ⟨h.ids_nodup, by simp, ?_⟩
    intro a ha b hb
    rw [List.mem_singleton] at hb
    subst b
    exact ne_of_mem_of_not_mem ha hn
  · intro other ho
    rcases (Table.mem_ids_put_new hn).mp ho with ho | rfl
    · exact h.linked other ho
    · exact hl
  · intro e he
    rcases (Table.mem_put_new hn).mp he with he | rfl
    · exact h.genuine e he
    · exact hg

/-- Changes that leave alone what identifies a player keep the order. -/
theorem Orderly.adjust (h : r.Orderly) {f : Registration → Registration}
    (hf : ∀ g, (f g).validated = g.validated ∧ (f g).id = g.id ∧ (f g).player = g.player)
    (id : PlayerId) : (r.adjust id f).Orderly := by
  constructor
  · exact h.links_nodup
  · change (r.registrations.adjust id f).ids.Nodup
    rw [Table.ids_adjust]
    exact h.ids_nodup
  · intro other ho
    change other ∈ (r.registrations.adjust id f).ids at ho
    rw [Table.ids_adjust] at ho
    exact h.linked other ho
  · intro e he
    obtain ⟨g, hg, rfl | hfg⟩ := Table.mem_adjust he
    · exact h.genuine _ hg
    · obtain ⟨hv, hi, hp⟩ := hf g
      rw [hfg, hv, hi, hp]
      exact h.genuine _ hg

theorem Orderly.strike (h : r.Orderly) {links : List PlayerId} (hn : links.Nodup)
    (hk : ∀ other ∈ r.links, other ≠ id → other ∈ links) :
    Orderly ⟨links, r.registrations.erase id⟩ := by
  constructor
  · exact hn
  · rw [Table.ids_erase]
    exact h.ids_nodup.filter _
  · intro other ho
    obtain ⟨ho, hne⟩ := Table.mem_ids_erase.mp ho
    exact hk other (h.linked other ho) hne
  · intro e he
    exact h.genuine e (Table.mem_erase.mp he).1

theorem Orderly.withdraw (h : r.Orderly) (id : PlayerId) : (r.withdraw id).2.Orderly :=
  h.strike h.links_nodup fun _ ho _ => ho

theorem Orderly.remove (h : r.Orderly) (id : PlayerId) : (r.remove id).2.Orderly := by
  apply h.strike (h.links_nodup.filter _)
  intro other ho hne
  exact mem_links_remove.mpr ⟨ho, hne⟩

variable {f : Registration → Registration}

theorem adjustAll_links (r : Roll) (ids : List PlayerId) :
    (ids.foldl (fun roll id => roll.adjust id f) r).links = r.links := by
  induction ids generalizing r with
  | nil => rfl
  | cons id ids ih => exact ih (r.adjust id f)

theorem adjustAll_ids (r : Roll) (ids : List PlayerId) :
    (ids.foldl (fun roll id => roll.adjust id f) r).registrations.ids = r.registrations.ids := by
  induction ids generalizing r with
  | nil => rfl
  | cons id ids ih =>
    rw [List.foldl_cons, ih]
    exact Table.ids_adjust

theorem Orderly.adjustAll (h : r.Orderly)
    (hf : ∀ g, (f g).validated = g.validated ∧ (f g).id = g.id ∧ (f g).player = g.player)
    (ids : List PlayerId) : (ids.foldl (fun roll id => roll.adjust id f) r).Orderly := by
  induction ids generalizing r with
  | nil => exact h
  | cons id ids ih => exact ih (h.adjust hf id)

theorem registration?_adjust {other : PlayerId} : (r.adjust id f).registration? other =
    if other = id then (r.registration? other).map f else r.registration? other :=
  Table.get?_adjust

/-- A change that made twice is the same as made once. -/
theorem registration?_adjustAll (hf : ∀ g, f (f g) = f g) (r : Roll) (ids : List PlayerId)
    (other : PlayerId) :
    (ids.foldl (fun roll id => roll.adjust id f) r).registration? other =
      if other ∈ ids then (r.registration? other).map f else r.registration? other := by
  induction ids generalizing r with
  | nil => simp
  | cons id ids ih =>
    rw [List.foldl_cons, ih, registration?_adjust]
    by_cases h : other = id
    · subst h
      cases r.registration? other <;> simp [hf]
    · simp [h]

end Roll
end BlockDuel.Hall
