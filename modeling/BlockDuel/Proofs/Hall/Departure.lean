import BlockDuel.Proofs.Hall.Outsiders

/-!
Two ways to go. A player may unregister and then lose the link, or just lose it: the hall is left with
the same books and the same room, and everybody else is told the same. A link that is lost already is
not lost again.
-/
namespace BlockDuel.Hall
open Wire

/-- The deed asks nothing of the link `id`, and it is no message for that player. -/
def Deed.beyond (id : PlayerId) : Deed → Bool
  | post other _ | miss other _ | finish other | cut other => other != id
  | opens _ _ | rules _ => true

theorem Deed.call?_beyond {id x : PlayerId} (h : x ≠ id) (ds : List Deed) :
    (ds.filter (Deed.beyond id)).filterMap (Deed.call? x) = ds.filterMap (Deed.call? x) := by
  rw [List.filterMap_filter]
  congr 1
  funext d
  cases d with
  | opens | rules => rfl
  | post other m | miss other m | finish other | cut other =>
    by_cases ho : other = id
    · subst ho
      simp [beyond, call?, h.symm]
    · simp [beyond, ho]

theorem Deed.pairing?_beyond (id : PlayerId) (ds : List Deed) :
    (ds.filter (Deed.beyond id)).filterMap Deed.pairing? = ds.filterMap Deed.pairing? := by
  rw [List.filterMap_filter]
  congr 1
  funext d
  cases d with
  | opens | rules => rfl
  | post other m | miss other m | finish other | cut other => exact ite_self none

namespace Roll

variable {r : Roll} {id : PlayerId}

/-- The link takes what is left of the registration with it. -/
theorem remove_withdraw : ((r.withdraw id).2.remove id).2 = (r.remove id).2 := by
  have he : (r.registrations.erase id).erase id = r.registrations.erase id :=
    Table.erase_absent fun h => (Table.mem_ids_erase.mp h).2 rfl
  simp only [withdraw, remove, he]

theorem remove_remove : ((r.remove id).2.remove id).2 = (r.remove id).2 := by
  apply remove_absent
  · intro h
    exact (mem_links_remove.mp h).2 rfl
  · intro h
    exact (Table.mem_ids_erase.mp h).2 rfl

end Roll

namespace State

variable {s s' : State} {seed seed' : UInt64} {now : Time} {ds ds' : List Deed} {id : PlayerId}
  {r r₁ r₂ : Room} {m : Message}

theorem filter_beyond_concedes {tell : Message → Deed} (ht : tell = .post id ∨ tell = .miss id)
    {y : PlayerId} (hne : y ≠ id) (v : Verdict) (m : Message) :
    List.filter (Deed.beyond id) [.rules v, .post y (.gameOver v), tell (.gameOver v), .post y m] =
      [.rules v, .post y (.gameOver v), .post y m] := by
  have hrules : (Deed.rules v).beyond id = true := rfl
  have hpost (m : Message) : (Deed.post y m).beyond id = true := bne_iff_ne.mpr hne
  have htell (m : Message) : (tell m).beyond id = false := by
    rcases ht with rfl | rfl <;> simp [Deed.beyond]
  simp only [List.filter_cons, List.filter_nil, hrules, hpost, htell, if_true, Bool.false_eq_true,
    if_false]

/-- However the leaver is told, the room is left the same and the others are told the same. -/
theorem Leaves.agree {tell tell' : Message → Deed} (h : Leaves tell id r r₁ ds)
    (h' : Leaves tell' id r r₂ ds') (ht : tell = .post id ∨ tell = .miss id)
    (ht' : tell' = .post id ∨ tell' = .miss id) :
    r₁ = r₂ ∧ ds.filter (Deed.beyond id) = ds'.filter (Deed.beyond id) := by
  cases h with
  | stranger out =>
    obtain ⟨rfl, rfl⟩ := h'.of_outside out
    exact ⟨rfl, rfl⟩
  | alone =>
    cases h' with
    | stranger out => simp at out
    | alone => exact ⟨rfl, rfl⟩
    | concedes pits => cases pits.ready
  | @concedes _ y pits =>
    cases h' with
    | stranger out => exact absurd pits.mem out
    | alone => cases pits.ready
    | @concedes _ y' pits' =>
      have hy : y = y' := Option.some.inj (pits.other?.symm.trans pits'.other?)
      subst hy
      refine ⟨rfl, ?_⟩
      rw [filter_beyond_concedes ht pits.ne.symm, filter_beyond_concedes ht' pits.ne.symm]

/-- Whether or not there is a link to lose, it is taken off the roll and the player leaves the room. -/
theorem Moves.departs (hm : Moves s seed (.notice now (.lost id)) s' ds) (h : s.Coherent) :
    ∃ room, s' = { s with roll := (s.roll.remove id).2, room := room } ∧
      Leaves (.miss id) id s.room room ds := by
  cases hm with
  | @loses _ _ room _ link leaves => exact ⟨room, rfl, leaves⟩
  | losesNothing absent =>
    have hr : id ∉ s.roll.registrations.ids := fun hr => absent (h.orderly.linked id hr)
    refine ⟨s.room, ?_, .stranger fun hm => hr (h.seated id hm)⟩
    rw [Roll.remove_absent absent hr]

/-- Unregistering changes nothing for one who is not registered. -/
theorem meet_unregister (h : s.Coherent) (seed : UInt64) (now : Time)
    (kind : m.kind = .unregisterWithServer) :
    (id ∉ s.roll.registrations.ids ∧ s.meet seed (.notice now (.message id m)) = (s, [])) ∨
      ∃ room ds, s.meet seed (.notice now (.message id m)) =
          ({ s with roll := (s.roll.withdraw id).2, room := room }, ds ++ [.finish id]) ∧
        Leaves (.post id) id s.room room ds := by
  by_cases hl : id ∈ s.roll.links
  · rw [meet_message hl, kind]
    by_cases hr : id ∈ s.roll.registrations.ids
    · exact .inr (onUnregister_registered h hr)
    · exact .inl ⟨hr, onUnregister_stranger hr⟩
  · exact .inl ⟨fun hr => hl (h.orderly.linked id hr), meet_unlinked hl⟩

/-- The loss of the link behind an unregistering comes to the same as the loss alone. -/
theorem depart_agree (h : s.Coherent) (seed₁ seed₂ seed₃ : UInt64) (now₁ now₂ now₃ : Time)
    (kind : m.kind = .unregisterWithServer) :
    let off := s.meet seed₁ (.notice now₁ (.message id m))
    let left := off.1.meet seed₂ (.notice now₂ (.lost id))
    let dropped := s.meet seed₃ (.notice now₃ (.lost id))
    left.1 = dropped.1 ∧
      (off.2 ++ left.2).filter (Deed.beyond id) = dropped.2.filter (Deed.beyond id) := by
  intro off left dropped
  have hdropped : Moves s seed₃ (.notice now₃ (.lost id)) dropped.1 dropped.2 :=
    meet_moves h seed₃ _
  have hoff : off.1.Coherent := (meet_moves h seed₁ _).coherent h
  have hleft : Moves off.1 seed₂ (.notice now₂ (.lost id)) left.1 left.2 := meet_moves hoff seed₂ _
  obtain ⟨room, hroom, leaves⟩ := hdropped.departs h
  obtain ⟨room', hroom', leaves'⟩ := hleft.departs hoff
  rcases meet_unregister h seed₁ now₁ kind with ⟨-, hnone⟩ | ⟨room₁, ds₁, hsome, leaves₁⟩
  · have hoffs : off = (s, []) := hnone
    rw [hoffs] at hroom' leaves' ⊢
    obtain ⟨rfl, hsame⟩ := leaves'.agree leaves (.inr rfl) (.inr rfl)
    exact ⟨hroom'.trans hroom.symm, hsame⟩
  · have hoffs : off = _ := hsome
    rw [hoffs] at hroom' leaves' ⊢
    obtain ⟨rfl, hsame⟩ := leaves₁.agree leaves (.inl rfl) (.inr rfl)
    -- the room is left already when the link is lost
    obtain ⟨rfl, hnothing⟩ := leaves'.of_outside fun hm => (leaves₁.members hm).2 rfl
    refine ⟨?_, ?_⟩
    · rw [hroom', hroom]
      simp only [Roll.remove_withdraw]
    · rw [hnothing, List.append_nil, List.filter_append, hsame]
      simp [Deed.beyond]

/-- A link is lost once. -/
theorem depart_twice (h : s.Coherent) (id : PlayerId) (seed seed' : UInt64) (now now' : Time) :
    let dropped := s.meet seed (.notice now (.lost id))
    dropped.1.meet seed' (.notice now' (.lost id)) = (dropped.1, []) := by
  intro dropped
  have hdropped : Moves s seed (.notice now (.lost id)) dropped.1 dropped.2 := meet_moves h seed _
  have hc : dropped.1.Coherent := hdropped.coherent h
  have hagain := meet_moves hc seed' (.notice now' (.lost id))
  obtain ⟨room, hroom, leaves⟩ := hdropped.departs h
  obtain ⟨room', hroom', leaves'⟩ := hagain.departs hc
  rw [hroom] at hroom' leaves' ⊢
  obtain ⟨rfl, hnothing⟩ := leaves'.of_outside fun hm => (leaves.members hm).2 rfl
  apply Prod.ext
  · rw [hroom']
    simp only [Roll.remove_remove]
  · exact hnothing

end State

namespace Course

variable {seeds : Nat → UInt64} {c : Course} {id : PlayerId}

theorem next_parts (seeds : Nat → UInt64) (c : Course) (o : Occasion) :
    ∃ ds, c.hall.meet (seeds c.made) o = ((c.next seeds o).hall, ds) ∧
      (c.next seeds o).made = c.made + (ds.filterMap Deed.pairing?).length ∧
      (c.next seeds o).deeds = c.deeds ++ ds := by
  rw [next_eq]
  exact ⟨_, rfl, rfl, rfl⟩

theorem next_depart_agree (hc : c.hall.Coherent) {m : Message} (now now' now'' : Time)
    (kind : m.kind = .unregisterWithServer) :
    let left := (c.next seeds (.notice now (.message id m))).next seeds (.notice now' (.lost id))
    let dropped := c.next seeds (.notice now'' (.lost id))
    left.hall = dropped.hall ∧ left.made = dropped.made ∧
      ∃ ds ds', left.deeds = c.deeds ++ ds ∧ dropped.deeds = c.deeds ++ ds' ∧
        ds.filter (Deed.beyond id) = ds'.filter (Deed.beyond id) := by
  intro left dropped
  obtain ⟨ds₁, hoff, hmade₁, hdeeds₁⟩ := next_parts seeds c (.notice now (.message id m))
  obtain ⟨ds₂, hleft, hmade₂, hdeeds₂⟩ :=
    next_parts seeds (c.next seeds (.notice now (.message id m))) (.notice now' (.lost id))
  obtain ⟨ds', hdropped, hmade', hdeeds'⟩ := next_parts seeds c (.notice now'' (.lost id))
  obtain ⟨hhall, hbeyond⟩ := State.depart_agree hc (seeds c.made) _ (seeds c.made) now now' now'' kind
  rw [hoff, hleft, hdropped] at hhall hbeyond
  have hpairings := congrArg (List.filterMap Deed.pairing?) hbeyond
  simp only [Deed.pairing?_beyond, List.filterMap_append] at hpairings
  refine ⟨hhall, ?_, ds₁ ++ ds₂, ds', ?_, hdeeds', hbeyond⟩
  · rw [hmade₂, hmade₁, Nat.add_assoc, ← List.length_append, hpairings]
    exact hmade'.symm
  · rw [hdeeds₂, hdeeds₁, List.append_assoc]

theorem next_depart_twice (hc : c.hall.Coherent) (now later : Time) :
    let dropped := c.next seeds (.notice now (.lost id))
    dropped.next seeds (.notice later (.lost id)) = dropped := by
  intro dropped
  obtain ⟨ds, hdropped, -, -⟩ := next_parts seeds c (.notice now (.lost id))
  have htwice := State.depart_twice hc id (seeds c.made) (seeds dropped.made) now later
  rw [hdropped] at htwice
  rw [next_eq]
  dsimp only at htwice ⊢
  rw [htwice]
  exact congrArg (Course.mk dropped.hall dropped.made) (List.append_nil dropped.deeds)

/-- Behind any course, a player who unregisters and then loses the link leaves the same hall behind as
one who just loses it. All that is not about this player is done the same, so every other link is asked
the same. A second loss changes nothing. -/
theorem departures_agree (seeds : Nat → UInt64) (interval patience : Nat) (start : Time)
    (os : List Occasion) (id : PlayerId) (payload : Bytes) (now now' now'' : Time) :
    let c := (opened interval patience start).run seeds os
    let left := c.run seeds [.notice now (.message id ⟨.unregisterWithServer, payload⟩),
      .notice now' (.lost id)]
    let dropped := c.next seeds (.notice now'' (.lost id))
    left.hall = dropped.hall ∧ left.made = dropped.made ∧
      (∃ ds ds', left.deeds = c.deeds ++ ds ∧ dropped.deeds = c.deeds ++ ds' ∧
        ds.filter (Deed.beyond id) = ds'.filter (Deed.beyond id) ∧
        ∀ x, x ≠ id → ds.filterMap (Deed.call? x) = ds'.filterMap (Deed.call? x)) ∧
      ∀ later, dropped.next seeds (.notice later (.lost id)) = dropped := by
  intro c left dropped
  have hc : c.hall.Coherent := coherent_run os
  obtain ⟨hhall, hmade, ds, ds', hdeeds, hdeeds', hbeyond⟩ :=
    next_depart_agree hc (m := ⟨.unregisterWithServer, payload⟩) now now' now'' rfl
  refine ⟨hhall, hmade, ⟨ds, ds', hdeeds, hdeeds', hbeyond, ?_⟩, next_depart_twice hc now''⟩
  intro x hx
  rw [← Deed.call?_beyond hx, hbeyond, Deed.call?_beyond hx]

/-- One of the two who play unregisters: the other is told of the victory and of the leaving once, just
as if the link had dropped. -/
theorem opponent_told_once :
    let c := (opened 5 5 0).run (fun _ => 7)
      [.notice 0 (.connected 10000), .notice 0 (.connected 10001),
        .notice 1 (.message 10000 (.register ⟨0, 3⟩)), .notice 1 (.message 10001 (.register ⟨0, 4⟩)),
        .notice 2 (.message 10000 .requestRoomJoin), .notice 2 (.message 10001 .requestRoomJoin)]
    let dropped := c.next (fun _ => 7) (.notice 3 (.lost 10000))
    let left := c.run (fun _ => 7)
      [.notice 3 (.message 10000 ⟨.unregisterWithServer, [1, 2, 3]⟩), .notice 5 (.lost 10000)]
    dropped.hall.room = .fresh ∧ left.hall = dropped.hall ∧
      ∃ ds ds', left.deeds = c.deeds ++ ds ∧ dropped.deeds = c.deeds ++ ds' ∧
        ds.filterMap (Deed.call? 10001) = ds'.filterMap (Deed.call? 10001) ∧
        ds'.filterMap (Deed.call? 10001) =
          [.send (.gameOver ⟨10001, 10000⟩), .send (.roomPlayerLeft 10000)] := by
  intro c dropped left
  obtain ⟨hhall, -, ⟨ds, ds', hdeeds, hdeeds', -, hcalls⟩, -⟩ :=
    departures_agree (fun _ => 7) 5 5 0 _ 10000 [1, 2, 3] 3 5 3
  refine ⟨by decide, hhall, ds, ds', hdeeds, hdeeds', hcalls 10001 (by decide), ?_⟩
  have hdropped : dropped.deeds = c.deeds ++ [.rules ⟨10001, 10000⟩,
      .post 10001 (.gameOver ⟨10001, 10000⟩), .miss 10000 (.gameOver ⟨10001, 10000⟩),
      .post 10001 (.roomPlayerLeft 10000)] := by
    decide
  rw [List.append_cancel_left (hdeeds'.symm.trans hdropped)]
  decide

end Course
end BlockDuel.Hall
