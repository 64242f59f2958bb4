import BlockDuel.Proofs.House.Keeping

/-!
Agreement of those who join. When a guest is ready to play, one match began with it, its seed was made
for this match and its roster is that of the room when the match began; so two guests who are ready
for the same match agree.
-/
namespace BlockDuel
open Wire Hall Seat

namespace House

variable {seeds : Nat → UInt64} {interval patience : Nat} {start : Time} {h : House} {id pid : PlayerId}
  {g : Guest} {seed : UInt64}

theorem guest?_eq_some : h.guest? id = some g ↔ ∃ v, h.visits id = some v ∧ v.guest = some g :=
  Option.bind_eq_some_iff

/-- Before and after it is ready, a guest is in one match at most, for it asks only once. -/
theorem Kept.matches_le (hk : h.Kept seeds interval patience start) (hg : h.guest? id = some g) :
    (matchesOf id h.course.deeds).length ≤ 1 := by
  obtain ⟨v, hv, hvg⟩ := guest?_eq_some.mp hg
  have hkv := hk.visit id v hv
  obtain ⟨hcarries, -, hholds⟩ := hkv.guest g hvg
  have hasked : requests (h.met.filterMap (Occasion.said? id)) ≤ requests v.up.sent :=
    (hkv.said_isPrefix.trans hcarries.got_isPrefix).sublist.countP_le
  have honce := hholds.asked
  have hle : (matchesOf id h.course.deeds).length + h.course.hall.awaits id ≤
      requests (h.met.filterMap (Occasion.said? id)) := by
    rw [hk.course]
    exact Course.matches_le_requests hk.fresh id
  omega

/-- A guest that has heard how to start has heard the briefing for its first match. -/
theorem Kept.briefed (hk : h.Kept seeds interval patience start) {v : Visit}
    (hv : h.visits id = some v) {ms : List Message} (hms : ms <+: v.down.got)
    (hdecided : (Digest.of ms).outcome.isSome = true) :
    let log := Link.spoken (line id h.course.deeds)
    ∃ p q q', (Course.opened interval patience start).Formed seeds h.met p [q, q'] ∧
      (matchesOf id h.course.deeds).head? = some p ∧ ms.filter audible <+: log ∧
      briefing id p [q, q'] <+: log := by
  intro log
  have hqueued := (hk.visit id v hv).queued
  have hlog : ms.filter audible <+: log := by
    have hgot := (hms.trans (hqueued.down.got_isPrefix.trans hqueued.said)).filter audible
    rw [← spoken_filter] at hgot
    exact hgot
  have hstart : ∃ m ∈ ms.filter audible, m.kind = .allPlayersReady := by
    apply Digest.exists_start
    rw [Digest.of_audible]
    exact hdecided
  have hbriefed : Briefed ((Course.opened interval patience start).Formed seeds h.met) id
      h.course.hall (line id h.course.deeds) (matchesOf id h.course.deeds) := by
    rw [hk.course]
    exact Course.briefed_run h.met hk.fresh id
  obtain ⟨p, roster, hformed, hfirst, hbriefing⟩ := hbriefed.of_start hlog hstart
  obtain ⟨q, q', rfl⟩ : ∃ q q', roster = [q, q'] := by
    obtain ⟨os, o, os', -, hforms, rfl⟩ := hformed
    obtain ⟨-, -, q, q', -, -, hroster⟩ := hforms.two (Course.coherent_run os)
    exact ⟨q, q', hroster⟩
  exact ⟨p, q, q', hformed, hfirst, hlog, hbriefing⟩

theorem Kept.ready (hk : h.Kept seeds interval patience start) (hg : h.guest? id = some g)
    (hs : g.joining.status = .ready seed pid) :
    pid = id ∧ ∃ p, p.seed = seed ∧ (matchesOf id h.course.deeds).head? = some p ∧
      (Course.opened interval patience start).Formed seeds h.met p g.joining.roster := by
  obtain ⟨v, hv, hvg⟩ := guest?_eq_some.mp hg
  obtain ⟨-, -, hholds⟩ := (hk.visit id v hv).guest g hvg
  obtain ⟨before, since, hprefix, -, hfollows, -, -⟩ := hholds.told
  have houtcome : (Digest.of before).outcome = some (seed, pid) := by
    have hstatus := hfollows.status
    rw [hs] at hstatus
    exact hstatus
  have hdecided : (Digest.of before).outcome.isSome = true := by rw [houtcome]; rfl
  obtain ⟨p, q, q', hformed, hfirst, hlog, hbriefing⟩ :=
    hk.briefed hv ((List.prefix_append before since).trans hprefix) hdecided
  have hroster := hfollows.roster
  rw [Digest.of_briefed hlog hbriefing hdecided] at houtcome hroster
  cases houtcome
  exact ⟨rfl, p, rfl, hfirst, hroster ▸ hformed⟩

/-- The match of a guest that is ready, and the only one it was in. -/
theorem Kept.formation (hk : h.Kept seeds interval patience start) (hg : h.guest? id = some g)
    (hs : g.joining.status = .ready seed pid) :
    let c := fun os => (Course.opened interval patience start).run seeds os
    pid = id ∧ ∃ before o after p, h.met = before ++ o :: after ∧ (c before).Forms seeds o p ∧
      id ∈ p.members ∧ p.seed = seed ∧ g.joining.roster = (c (before ++ [o])).hall.roster ∧
      ∀ before' o' after' p', h.met = before' ++ o' :: after' → (c before').Forms seeds o' p' →
        id ∈ p'.members → before' = before ∧ o' = o := by
  intro c
  obtain ⟨hpid, p, hseed, hfirst, before, o, after, hmet, hforms, hroster⟩ := hk.ready hg hs
  have hmem : id ∈ p.members := mem_members_of_matchesOf (List.mem_of_mem_head? hfirst)
  have honce := hk.matches_le hg
  rw [hk.course] at honce
  refine ⟨hpid, before, o, after, p, hmet, hforms, hmem, hseed, ?_, ?_⟩
  · unfold c
    rw [Course.run_concat]
    exact hroster.symm
  · intro before' o' after' p' hmet' hforms' hmem'
    rw [hmet'] at honce
    exact Course.forms_once (hmet'.symm.trans hmet) honce hforms' hmem' hforms hmem

/-- Any match of a guest that is ready is the one it is ready for. -/
theorem Kept.ready_for (hk : h.Kept seeds interval patience start) (hg : h.guest? id = some g)
    (hs : g.joining.status = .ready seed pid) {before after : List Occasion} {o : Occasion}
    {p : Pairing} (hmet : h.met = before ++ o :: after)
    (hforms : ((Course.opened interval patience start).run seeds before).Forms seeds o p)
    (hid : id ∈ p.members) :
    pid = id ∧ seed = p.seed ∧ g.joining.roster =
      ((Course.opened interval patience start).run seeds (before ++ [o])).hall.roster := by
  obtain ⟨hpid, before', o', after', p', -, hforms', -, hseed, hroster, honly⟩ :=
    hk.formation hg hs
  obtain ⟨rfl, rfl⟩ := honly before o after p hmet hforms hid
  exact ⟨hpid, hseed.symm.trans (hforms'.seed.trans hforms.seed.symm), hroster⟩

/-- In a house where guests and strangers come, act and go in any order and octets arrive at any pace,
a guest that is ready to play has its number, and exactly one match began with it; the seed is the
one that was made for this match, and the roster has its two members in the order of joining. Two guests
that are ready for the same match have the same seed and the same roster, and different numbers. -/
theorem ready_guests_agree (seeds : Nat → UInt64) (interval patience : Nat) (start : Time)
    (as : List Act) :
    let h := (opened interval patience start).run seeds as
    let c := fun os => (Course.opened interval patience start).run seeds os
    h.course = c h.met ∧
    (∀ id g seed pid, h.guest? id = some g → g.joining.status = .ready seed pid →
      pid = id ∧ ∃ before o after p, h.met = before ++ o :: after ∧ (c before).Forms seeds o p ∧
        id ∈ p.members ∧ p.seed = seed ∧ g.joining.roster = (c (before ++ [o])).hall.roster ∧
        ∀ before' o' after' p', h.met = before' ++ o' :: after' → (c before').Forms seeds o' p' →
          id ∈ p'.members → before' = before ∧ o' = o) ∧
    ∀ before o after p x y, h.met = before ++ o :: after → (c before).Forms seeds o p →
      p.members = [x, y] → ∀ gx gy, h.guest? x = some gx → h.guest? y = some gy →
        ∀ sx sy ix iy, gx.joining.status = .ready sx ix → gy.joining.status = .ready sy iy →
          sx = sy ∧ ix ≠ iy ∧ gx.joining.roster = gy.joining.roster := by
  intro h c
  have hk : h.Kept seeds interval patience start := kept_run seeds interval patience start as
  refine ⟨hk.course, fun id g seed pid hg hs => hk.formation hg hs, ?_⟩
  intro before o after p x y hmet hforms hmembers gx gy hgx hgy sx sy ix iy hsx hsy
  obtain ⟨a, b, -, -, hne, hab, -⟩ := hforms.two (Course.coherent_run before)
  have hxy : x ≠ y := by
    rw [hmembers] at hab
    cases hab
    exact hne
  obtain ⟨hix, hseedx, hrosterx⟩ := hk.ready_for hgx hsx hmet hforms (by simp [hmembers])
  obtain ⟨hiy, hseedy, hrostery⟩ := hk.ready_for hgy hsy hmet hforms (by simp [hmembers])
  refine ⟨hseedx.trans hseedy.symm, ?_, hrosterx.trans hrostery.symm⟩
  rw [hix, hiy]
  exact hxy

/-- Two guests come, register, ask for a seat one after the other and hear that play begins. -/
def encounter : List Act :=
  [.arrives 1 3000 3 0, .arrives 2 3000 4 0,
    .handles 1 0, .falls 1 8, .does 1 (.poll 1), .rises 1 16, .handles 1 1,
    .falls 1 12, .does 1 (.poll 2), .rises 1 8, .handles 1 2,
    .handles 2 3, .falls 2 8, .does 2 (.poll 4), .rises 2 16, .handles 2 4,
    .falls 2 12, .does 2 (.poll 5), .rises 2 8, .handles 2 5,
    .falls 1 100, .does 1 (.poll 6), .falls 2 100, .does 2 (.poll 7)]

/-- The two of them are ready and agree. -/
theorem encounter_agrees :
    let h := (opened 5 5 0).run (fun _ => 7) encounter
    ∃ gx gy, h.guest? 1 = some gx ∧ h.guest? 2 = some gy ∧
      gx.joining.status = .ready 7 1 ∧ gy.joining.status = .ready 7 2 ∧
      gx.joining.roster = gy.joining.roster ∧
      ∃ before o after, ∃ p : Pairing, h.met = before ++ o :: after ∧ 1 ∈ p.members ∧ p.seed = 7 ∧
        gx.joining.roster =
          ((Course.opened 5 5 0).run (fun _ => 7) (before ++ [o])).hall.roster := by
  have hx : (((opened 5 5 0).run (fun _ => 7) encounter).guest? 1).map (·.joining.status) =
      some (.ready 7 1) := by decide +kernel
  have hy : (((opened 5 5 0).run (fun _ => 7) encounter).guest? 2).map (·.joining.status) =
      some (.ready 7 2) := by decide +kernel
  obtain ⟨gx, hgx, hsx⟩ := Option.map_eq_some_iff.mp hx
  obtain ⟨gy, hgy, hsy⟩ := Option.map_eq_some_iff.mp hy
  have hforms : ((Course.opened 5 5 0).run (fun _ => 7)
      [.notice 0 (.connected 1), .notice 1 (.message 1 (.register ⟨0, 3⟩)),
        .notice 2 (.message 1 .requestRoomJoin), .notice 3 (.connected 2),
        .notice 4 (.message 2 (.register ⟨0, 4⟩))]).Forms (fun _ => 7)
      (.notice 5 (.message 2 .requestRoomJoin)) ⟨[1, 2], 7⟩ :=
    ⟨by decide +kernel, by decide +kernel, rfl, by decide +kernel, by decide +kernel,
      by decide +kernel⟩
  obtain ⟨-, hready, hagree⟩ := ready_guests_agree (fun _ => 7) 5 5 0 encounter
  obtain ⟨-, before, o, after, p, hmet, -, hmem, hseed, hroster, -⟩ := hready 1 gx 7 1 hgx hsx
  obtain ⟨-, -, hrosters⟩ := hagree _ _ [] _ 1 2 (by decide +kernel) hforms rfl gx gy hgx hgy
    7 7 1 2 hsx hsy
  exact ⟨gx, gy, hgx, hgy, hsx, hsy, hrosters, before, o, after, p, hmet, hmem, hseed, hroster⟩

end House
end BlockDuel
