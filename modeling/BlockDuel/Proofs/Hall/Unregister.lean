import BlockDuel.Proofs.Hall.Coherence

/-!
What becomes of a player who unregisters. The registration is struck and the link closes once all that
is queued has been written; until its loss is heard of, the link is still on the roll. All that the
player sends behind the unregistering is refused, but for one thing: a registration is taken.
-/
namespace BlockDuel.Hall
open Wire

/-- The player of the link `id` asks to be registered, and gives a proper description. -/
def Occasion.Registers (o : Occasion) (id : PlayerId) : Prop :=
  ∃ now m p, o = .notice now (.message id m) ∧ m.kind = .registerWithServer ∧
    m.read? Player = some p

namespace State

/-- Neither registered nor in the room. -/
def Absent (s : State) (id : PlayerId) : Prop :=
  id ∉ s.roll.registrations.ids ∧ id ∉ s.room.members

variable {s s' : State} {seed : UInt64} {o : Occasion} {ds : List Deed} {id : PlayerId}

theorem Coherent.absent (h : s.Coherent) (hr : id ∉ s.roll.registrations.ids) : s.Absent id :=
  ⟨hr, fun hm => hr (h.seated id hm)⟩

/-- Only a registration enters a player. -/
theorem Moves.mem_ids (hm : Moves s seed o s' ds) (hi : id ∈ s'.roll.registrations.ids) :
    id ∈ s.roll.registrations.ids ∨ o.Registers id := by
  cases hm with
  | idles | answersPing | acknowledges | seats | pairs | relays | rules | losesNothing => exact .inl hi
  | admits =>
    left
    rw [Roll.registrations_insert] at hi
    exact hi
  | @registers now other m p link new kind player =>
    rcases (Table.mem_ids_put_new new).mp hi with hi | rfl
    · exact .inl hi
    · exact .inr ⟨now, m, p, rfl, kind, player⟩
  | hearsPong =>
    left
    simpa [Roll.adjust] using hi
  | dismisses =>
    exact .inl (Table.mem_ids_erase.mp hi).1
  | loses =>
    exact .inl (Table.mem_ids_erase.mp hi).1
  | checks =>
    left
    rw [checkLiveness_ids] at hi
    exact hi

/-- A registration over a link without a player is taken, whatever is to become of the link. -/
theorem meet_registers (seed : UInt64) (hl : id ∈ s.roll.links) (hn : id ∉ s.roll.registrations.ids)
    (ho : o.Registers id) : id ∈ (s.meet seed o).1.roll.registrations.ids := by
  obtain ⟨now, m, p, rfl, kind, player⟩ := ho
  rw [meet_message hl, kind]
  simp only [onRegister_new hl hn player]
  exact (Table.mem_ids_put_new hn).mpr (.inr rfl)

/-- Unregistering strikes the registration, leaves the room and closes the link, which stays on the
roll. -/
theorem meet_unregisters (h : s.Coherent) (seed : UInt64) (now : Time) {m : Message}
    (hr : id ∈ s.roll.registrations.ids) (kind : m.kind = .unregisterWithServer) :
    let out := s.meet seed (.notice now (.message id m))
    .finish id ∈ out.2 ∧ id ∈ out.1.roll.links ∧ out.1.Absent id := by
  have hl := h.orderly.linked id hr
  obtain ⟨room, ds, hout, leaves⟩ := onUnregister_registered h hr
  intro out
  have hmeet : out = s.onUnregister id := by
    change s.meet seed _ = _
    rw [meet_message hl, kind]
  rw [hmeet, hout]
  refine ⟨?_, hl, ?_, ?_⟩
  · exact List.mem_append_right ds (List.mem_singleton_self _)
  · intro hi
    exact (Table.mem_ids_erase.mp hi).2 rfl
  · intro hm
    exact (leaves.members hm).2 rfl

end State

namespace Course

variable {seeds : Nat → UInt64} {c : Course} {id : PlayerId}

/-- A link stays on the roll until its loss is heard of. -/
theorem run_linked (hc : c.hall.Coherent) (hl : id ∈ c.hall.roll.links) (os : List Occasion)
    (kept : ∀ now, .notice now (.lost id) ∉ os) : id ∈ (c.run seeds os).hall.roll.links := by
  induction os using List.reverseRecOn with
  | nil => exact hl
  | append_singleton os o ih =>
    rw [run_concat]
    obtain ⟨ds, -, hm⟩ := next_moves seeds (run_coherent hc os) o
    refine (hm.mem_links id).mpr (.inr ⟨ih fun now h => kept now (by simp [h]), ?_⟩)
    rintro now rfl
    exact kept now (by simp)

theorem run_absent (hc : c.hall.Coherent) (hn : c.hall.Absent id) {os : List Occasion}
    (quiet : ∀ o ∈ os, ¬ o.Registers id) : (c.run seeds os).hall.Absent id := by
  apply (run_coherent hc os).absent
  induction os using List.reverseRecOn with
  | nil => exact hn.1
  | append_singleton os o ih =>
    rw [run_concat]
    obtain ⟨ds, -, hm⟩ := next_moves seeds (run_coherent hc os) o
    intro hi
    rcases hm.mem_ids hi with hi | ho
    · exact ih (fun o h => quiet o (by simp [h])) hi
    · exact quiet o (by simp) ho

theorem next_unregisters (hc : c.hall.Coherent) (now : Time) {m : Message}
    (hr : id ∈ c.hall.roll.registrations.ids) (kind : m.kind = .unregisterWithServer) :
    let c' := c.next seeds (.notice now (.message id m))
    (∃ ds, c'.deeds = c.deeds ++ ds ∧ .finish id ∈ ds) ∧ c'.hall.Absent id ∧
      id ∈ c'.hall.roll.links := by
  obtain ⟨hfinish, hlink, habsent⟩ :=
    State.meet_unregisters hc (seeds c.made) now hr kind
  intro c'
  have hn : c' = _ := next_eq _
  rw [hn]
  exact ⟨⟨_, rfl, hfinish⟩, habsent, hlink⟩

/-- A registered player unregisters: the link is closed, and the player is out. Until the loss of the
link is heard of, the player stays out exactly if no proper registration comes behind. -/
theorem absent_iff_no_registration (seeds : Nat → UInt64) (interval patience : Nat) (start : Time)
    (os : List Occasion) (id : PlayerId) (now : Time) (m : Message)
    (registered : id ∈
      ((opened interval patience start).run seeds os).hall.roll.registrations.ids)
    (kind : m.kind = .unregisterWithServer) (after : List Occasion)
    (kept : ∀ now, .notice now (.lost id) ∉ after) :
    let before := (opened interval patience start).run seeds os
    let c := before.next seeds (.notice now (.message id m))
    (∃ ds, c.deeds = before.deeds ++ ds ∧ .finish id ∈ ds) ∧ c.hall.Absent id ∧
      id ∈ c.hall.roll.links ∧
      ((∀ es, es <+: after → (c.run seeds es).hall.Absent id) ↔ ∀ o ∈ after, ¬ o.Registers id) := by
  intro before c
  have hb : before.hall.Coherent := coherent_run os
  have hc : c.hall.Coherent := by
    obtain ⟨ds, -, hm⟩ := next_moves seeds hb (.notice now (.message id m))
    exact hm.coherent hb
  obtain ⟨hfinish, habsent, hlink⟩ := next_unregisters hb now registered kind
  refine ⟨hfinish, habsent, hlink, ?_, ?_⟩
  · intro hout o ho hr
    obtain ⟨es, rest, rfl⟩ := List.append_of_mem ho
    have hes : es <+: es ++ o :: rest := List.prefix_append es _
    have hes' : es ++ [o] <+: es ++ o :: rest := ⟨rest, by simp⟩
    have hl : id ∈ (c.run seeds es).hall.roll.links :=
      run_linked hc hlink es fun now h => kept now (by simp [h])
    have hin := State.meet_registers (seeds (c.run seeds es).made) hl (hout es hes).1 hr
    have hlate := (hout (es ++ [o]) hes').1
    rw [run_concat, next_eq] at hlate
    exact hlate hin
  · intro quiet es hes
    apply run_absent hc habsent
    intro o ho
    exact quiet o (hes.subset ho)

/-- Behind an unregistering, a request to join alone does not bring a player back, but with a
registration before it does. -/
theorem registration_brings_back :
    let c := ((opened 5 5 0).run (fun _ => 7)
      [.notice 0 (.connected 1), .notice 1 (.message 1 (.register ⟨0, 3⟩))]).next (fun _ => 7)
        (.notice 2 (.message 1 (.unregister 1)))
    (∀ es, es <+: [.notice 3 (.message 1 .requestRoomJoin)] →
      (c.run (fun _ => 7) es).hall.Absent 1) ∧
    ¬ ∀ es, es <+: [.notice 3 (.message 1 (.register ⟨0, 3⟩)),
        .notice 3 (.message 1 .requestRoomJoin)] → (c.run (fun _ => 7) es).hall.Absent 1 := by
  constructor
  · apply (absent_iff_no_registration (fun _ => 7) 5 5 0 _ 1 2 (.unregister 1) (by decide) rfl _
      (by simp)).2.2.2.mpr
    rintro o ho ⟨now, m, p, rfl, kind, -⟩
    cases List.mem_singleton.mp ho
    cases kind
  · intro h
    refine (absent_iff_no_registration (fun _ => 7) 5 5 0 _ 1 2 (.unregister 1) (by decide) rfl _
      (by simp)).2.2.2.mp h _ List.mem_cons_self ?_
    exact ⟨3, .register ⟨0, 3⟩, ⟨0, 3⟩, rfl, rfl, by decide⟩

/-- The link of `10001` is closing, and still the waiting `10000` is matched with it. -/
theorem matched_with_closing :
    let before := (opened 5 5 0).run (fun _ => 7)
      [.notice 0 (.connected 10000), .notice 0 (.connected 10001),
        .notice 1 (.message 10000 (.register ⟨0, 3⟩)), .notice 1 (.message 10001 (.register ⟨0, 4⟩)),
        .notice 2 (.message 10000 .requestRoomJoin)]
    let c := before.next (fun _ => 7) (.notice 3 (.message 10001 (.unregister 10001)))
    let c' := c.run (fun _ => 7)
      [.notice 4 (.message 10001 (.register ⟨0, 4⟩)), .notice 4 (.message 10001 .requestRoomJoin)]
    10001 ∈ before.hall.roll.registrations.ids ∧ .finish 10001 ∈ c.deeds ∧
      10001 ∉ c.hall.roll.registrations.ids ∧ 10001 ∉ c.hall.room.members ∧
      10001 ∈ c'.hall.roll.registrations.ids ∧ c'.hall.room.members = [10000, 10001] ∧
      c'.hall.room.phase = .ready := by
  decide

end Course
end BlockDuel.Hall
