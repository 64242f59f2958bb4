import BlockDuel.Proofs.Hall.Moves

/-!
A hall keeps its books: after any course of occasions the links on the roll are those that came and are
not lost, every registration is genuine and over a link, every member of the room is registered, and
the room has one of its three shapes.
-/
namespace BlockDuel.Hall
open Wire

namespace State

variable {s s' : State} {seed : UInt64} {now : Time} {o : Occasion} {ds : List Deed}

theorem coherent_opened (interval patience : Nat) (now : Time) :
    (opened interval patience now).Coherent := by
  constructor
  · exact Roll.orderly_empty
  · exact .empty
  · simp [opened, Room.fresh]

theorem Leaves.sound {tell : Message → Deed} {id : PlayerId} {r r' : Room}
    (h : Leaves tell id r r' ds) (hr : r.Sound) : r'.Sound := by
  cases h with
  | stranger out => exact hr
  | alone => exact .empty
  | concedes pits => exact .empty

/-- The one who leaves is out, and nobody comes in. -/
theorem Leaves.members {tell : Message → Deed} {id x : PlayerId} {r r' : Room}
    (h : Leaves tell id r r' ds) (hx : x ∈ r'.members) : x ∈ r.members ∧ x ≠ id := by
  cases h with
  | stranger out => exact ⟨hx, ne_of_mem_of_not_mem hx out⟩
  | alone => cases hx
  | concedes pits => cases hx

theorem checkLiveness_orderly (h : s.roll.Orderly) (order : List PlayerId) :
    (s.checkLiveness now order).1.roll.Orderly :=
  h.adjustAll (f := fun g => { g with closing := true }) (fun _ => ⟨rfl, rfl, rfl⟩) _

theorem checkLiveness_links (order : List PlayerId) :
    (s.checkLiveness now order).1.roll.links = s.roll.links :=
  Roll.adjustAll_links _ _

theorem checkLiveness_ids (order : List PlayerId) :
    (s.checkLiveness now order).1.roll.registrations.ids = s.roll.registrations.ids :=
  Roll.adjustAll_ids _ _

theorem Moves.coherent (hm : Moves s seed o s' ds) (h : s.Coherent) : s'.Coherent := by
  cases hm with
  | idles => exact h
  | @admits now id =>
    refine ⟨h.orderly.insert id, h.room, ?_⟩
    intro x hx
    rw [Roll.registrations_insert]
    exact h.seated x hx
  | @registers now id m p link new kind player =>
    refine ⟨h.orderly.enter link new ⟨rfl, rfl, rfl⟩, h.room, ?_⟩
    intro x hx
    exact (Table.mem_ids_put_new new).mpr (.inl (h.seated x hx))
  | @hearsPong now id m kind =>
    have hroll : (s.roll.adjust id fun g => { g with lastPong := now }).Orderly :=
      h.orderly.adjust (f := fun g => { g with lastPong := now }) (fun _ => ⟨rfl, rfl, rfl⟩) id
    refine ⟨hroll, h.room, ?_⟩
    intro x hx
    change x ∈ (s.roll.registrations.adjust id _).ids
    rw [Table.ids_adjust]
    exact h.seated x hx
  | answersPing => exact h
  | acknowledges => exact h
  | @seats now id m g registered kind room =>
    refine ⟨h.orderly, .waiting id, ?_⟩
    intro x hx
    rw [List.mem_singleton.mp hx]
    exact Table.mem_ids_of_get? registered
  | @pairs now a id m ga g waiting registered kind ne room =>
    refine ⟨h.orderly, .playing ne seed, ?_⟩
    intro x hx
    have hx' : x = a ∨ x = id := by simpa using hx
    rcases hx' with rfl | rfl
    · exact Table.mem_ids_of_get? waiting
    · exact Table.mem_ids_of_get? registered
  | relays => exact h
  | rules => exact ⟨h.orderly, .empty, fun x hx => nomatch hx⟩
  | @dismisses now id m room ds registered kind leaves =>
    refine ⟨h.orderly.withdraw id, leaves.sound h.room, ?_⟩
    intro x hx
    obtain ⟨hx, hne⟩ := leaves.members hx
    exact Table.mem_ids_erase.mpr ⟨h.seated x hx, hne⟩
  | @loses now id room ds link leaves =>
    refine ⟨h.orderly.remove id, leaves.sound h.room, ?_⟩
    intro x hx
    obtain ⟨hx, hne⟩ := leaves.members hx
    exact Table.mem_ids_erase.mpr ⟨h.seated x hx, hne⟩
  | losesNothing => exact h
  | @checks now order =>
    refine ⟨checkLiveness_orderly h.orderly order, h.room, ?_⟩
    intro x hx
    rw [checkLiveness_ids]
    exact h.seated x hx

/-- Only a new link comes onto the roll, and only the loss of a link takes it off. -/
theorem Moves.mem_links (hm : Moves s seed o s' ds) (id : PlayerId) :
    id ∈ s'.roll.links ↔ (∃ now, o = .notice now (.connected id)) ∨
      id ∈ s.roll.links ∧ ∀ now, o ≠ .notice now (.lost id) := by
  cases hm with
  | @admits now other =>
    change id ∈ (s.roll.insert other).links ↔ _
    rw [Roll.mem_links_insert]
    constructor
    · rintro (hl | rfl)
      · exact .inr ⟨hl, by simp⟩
      · exact .inl ⟨now, rfl⟩
    · rintro (⟨now', ho⟩ | ⟨hl, -⟩)
      · right
        cases ho
        rfl
      · exact .inl hl
  | @loses now other room ds link leaves =>
    rw [Roll.mem_links_remove]
    constructor
    · rintro ⟨hl, hne⟩
      refine .inr ⟨hl, ?_⟩
      rintro now' ho
      cases ho
      exact hne rfl
    · rintro (⟨now', ho⟩ | ⟨hl, hn⟩)
      · cases ho
      · refine ⟨hl, ?_⟩
        rintro rfl
        exact hn now rfl
  | @losesNothing now other absent =>
    constructor
    · intro hl
      refine .inr ⟨hl, ?_⟩
      rintro now' ho
      cases ho
      exact absent hl
    · rintro (⟨now', ho⟩ | ⟨hl, -⟩)
      · cases ho
      · exact hl
  | checks => simp [checkLiveness_links]
  | idles | registers | hearsPong | answersPing | acknowledges | seats | pairs | relays | rules
    | dismisses => simp [Roll.adjust, Roll.withdraw]

end State

/-- The link `id` came, and it has not been lost since. -/
def Linked (os : List Occasion) (id : PlayerId) : Prop :=
  ∃ before now after, os = before ++ .notice now (.connected id) :: after ∧
    ∀ now, .notice now (.lost id) ∉ after

theorem linked_nil {id : PlayerId} : ¬ Linked [] id := by
  rintro ⟨before, now, after, ho, -⟩
  simp at ho

theorem linked_concat {os : List Occasion} {o : Occasion} {id : PlayerId} :
    Linked (os ++ [o]) id ↔ (∃ now, o = .notice now (.connected id)) ∨
      Linked os id ∧ ∀ now, o ≠ .notice now (.lost id) := by
  constructor
  · rintro ⟨before, now, after, ho, hn⟩
    rcases List.eq_nil_or_concat after with rfl | ⟨after, o', rfl⟩
    · left
      exact ⟨now, (List.append_inj' ho rfl).2 |> List.singleton_inj.mp⟩
    · right
      have ho' : os ++ [o] = (before ++ .notice now (.connected id) :: after) ++ [o'] := by
        simpa using ho
      obtain ⟨rfl, hs⟩ := List.append_inj' ho' rfl
      obtain rfl := List.singleton_inj.mp hs
      refine ⟨⟨before, now, after, rfl, fun now' h => hn now' (by simp [h])⟩, ?_⟩
      rintro now' rfl
      exact hn now' (by simp)
  · rintro (⟨now, rfl⟩ | ⟨⟨before, now, after, rfl, hn⟩, ho⟩)
    · exact ⟨os, now, [], rfl, by simp⟩
    · refine ⟨before, now, after ++ [o], by simp, ?_⟩
      intro now' h
      rcases List.mem_append.mp h with h | h
      · exact hn now' h
      · exact ho now' (List.mem_singleton.mp h).symm

namespace Course

variable {seeds : Nat → UInt64} {interval patience : Nat} {start : Time}

theorem next_moves (seeds : Nat → UInt64) {c : Course} (hc : c.hall.Coherent) (o : Occasion) :
    ∃ ds, (c.next seeds o).deeds = c.deeds ++ ds ∧
      State.Moves c.hall (seeds c.made) o (c.next seeds o).hall ds := by
  rw [next_eq]
  exact ⟨_, rfl, State.meet_moves hc (seeds c.made) o⟩

theorem run_coherent {c : Course} (hc : c.hall.Coherent) (os : List Occasion) :
    (c.run seeds os).hall.Coherent := by
  induction os using List.reverseRecOn with
  | nil => exact hc
  | append_singleton os o ih =>
    rw [run_concat]
    obtain ⟨ds, -, hm⟩ := next_moves seeds ih o
    exact hm.coherent ih

theorem next_coherent {c : Course} (hc : c.hall.Coherent) (o : Occasion) :
    (c.next seeds o).hall.Coherent :=
  run_coherent hc [o]

theorem coherent_run (os : List Occasion) :
    ((opened interval patience start).run seeds os).hall.Coherent :=
  run_coherent (State.coherent_opened interval patience start) os

/-- What holds when a hall is opened and is kept up by every move holds after any course. -/
theorem run_induction {P : List Occasion → Course → Prop}
    (opens : P [] (opened interval patience start))
    (moves : ∀ os c o s' ds, P os c → c.hall.Coherent → State.Moves c.hall (seeds c.made) o s' ds →
      P (os ++ [o]) ⟨s', c.made + (ds.filterMap Deed.pairing?).length, c.deeds ++ ds⟩)
    (os : List Occasion) : P os ((opened interval patience start).run seeds os) := by
  induction os using List.reverseRecOn with
  | nil => exact opens
  | append_singleton os o ih =>
    rw [run_concat, next_eq]
    have hc : ((opened interval patience start).run seeds os).hall.Coherent := coherent_run os
    exact moves os _ o _ _ ih hc (State.meet_moves hc _ o)

theorem mem_links_run (os : List Occasion) (id : PlayerId) :
    id ∈ ((opened interval patience start).run seeds os).hall.roll.links ↔ Linked os id := by
  refine run_induction (P := fun os c => id ∈ c.hall.roll.links ↔ Linked os id) ?_ ?_ os
  · constructor
    · intro h
      cases h
    · intro h
      exact absurd h linked_nil
  · intro os c o s' ds ih _ hm
    rw [hm.mem_links id, linked_concat, ih]

/-- The books of a hall after any course: the links are those that came and were not lost since;
every registration is validated, carries the number of its link and has that link; every member of the
room is registered; and how many members there are decides the phase, which decides whether there is a
seed. -/
theorem books_agree (seeds : Nat → UInt64) (interval patience : Nat) (start : Time)
    (os : List Occasion) :
    let s := ((opened interval patience start).run seeds os).hall
    (s.roll.links.Nodup ∧ ∀ id, id ∈ s.roll.links ↔ Linked os id) ∧
      (s.roll.registrations.ids.Nodup ∧ ∀ e ∈ s.roll.registrations.entries,
        e.1 ∈ s.roll.links ∧ e.2.validated = true ∧ e.2.id = e.1 ∧ e.2.player.id = e.1) ∧
      (∀ id ∈ s.room.members, id ∈ s.roll.registrations.ids) ∧
      s.room.members.Nodup ∧ s.room.members.length ≤ 2 ∧
      (s.room.phase = .empty ↔ s.room.members.length = 0) ∧
      (s.room.phase = .waitingForSecond ↔ s.room.members.length = 1) ∧
      (s.room.phase = .ready ↔ s.room.members.length = 2) ∧
      (s.room.seed.isSome ↔ s.room.phase = .ready) := by
  intro s
  have h : s.Coherent := coherent_run os
  obtain ⟨hempty, hwaiting, hready⟩ := h.room.phase_iff
  refine ⟨⟨h.orderly.links_nodup, mem_links_run os⟩, ⟨h.orderly.ids_nodup, ?_⟩, h.seated,
    h.room.nodup, h.room.length_le, hempty, hwaiting, hready, h.room.seed_isSome⟩
  intro e he
  have hl : e.1 ∈ s.roll.links := h.orderly.linked e.1 (List.mem_map_of_mem he)
  exact ⟨hl, h.orderly.genuine e he⟩

end Course
end BlockDuel.Hall
