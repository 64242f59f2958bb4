import BlockDuel.Proofs.House.Replication

/-!
How a match ends for those who play it. A hall makes one verdict on a match, so whatever reaches a guest
of it is this verdict: two guests of one match never disagree, each marks one side as lost, and what a
guest was told once it is told for good.
-/
namespace BlockDuel
open Wire Hall Seat

namespace Seat

/-- The match is over and was won. -/
def Play.Won (p : Play) : Prop := p.arena.isOver .here = false ∧ p.arena.isOver .there = true

/-- The match is over and was lost. -/
def Play.Lost (p : Play) : Prop := p.arena.isOver .here = true ∧ p.arena.isOver .there = false

variable {p : Play} {seed : UInt64} {id : PlayerId} {ss : List Stroke} {heard : List Message}

theorem Plays.undecided (h : Plays seed id ss heard p) (hd : decisions heard = []) :
    p.verdict = none ∧ p.arena.isOver .here = false ∧ p.arena.isOver .there = false := by
  have hverdict := h.verdict
  have hhere := h.lostHere
  have hthere := h.lostThere
  rw [hd] at hverdict hhere hthere
  exact ⟨hverdict, hhere, hthere⟩

/-- One verdict marks one side. -/
theorem Plays.decided (h : Plays seed id ss heard p) {w : Verdict} (hd : decisions heard = [w]) :
    p.verdict = some w ∧ (w.winner = id → p.Won) ∧ (w.winner ≠ id → p.Lost) := by
  have hverdict := h.verdict
  have hhere := h.lostHere
  have hthere := h.lostThere
  rw [hd] at hverdict hhere hthere
  refine ⟨hverdict, fun hw => ⟨hhere.trans ?_, hthere.trans ?_⟩, fun hw =>
    ⟨hhere.trans ?_, hthere.trans ?_⟩⟩ <;> simp [hw]

end Seat

namespace Guest

/-- The guest plays and has been told of a verdict. -/
def Decided (g : Guest) : Prop := ∃ p, g.play = some p ∧ p.verdict.isSome = true

/-- Nothing that a guest does makes it forget. -/
theorem Decided.does {g : Guest} (h : g.Decided) (gesture : Gesture) : (g.does gesture).Decided := by
  obtain ⟨p, hplay, hverdict⟩ := h
  cases gesture with
  | poll now => exact ⟨p, hplay, hverdict⟩
  | quit | lineEnds => exact ⟨p, hplay, hverdict⟩
  | begin =>
    change (Guest.begin g).Decided
    unfold Guest.begin
    rw [hplay]
    exact ⟨p, hplay, hverdict⟩
  | stroke s =>
    change (g.stroke s).Decided
    unfold Guest.stroke
    rw [hplay]
    dsimp only
    split
    · have hkept : (p.sync g.session).2.1.verdict = p.verdict := by
        unfold Play.sync
        split <;> rfl
      split <;> exact ⟨_, rfl, hkept ▸ hverdict⟩
    · exact ⟨_, rfl, hverdict⟩
  | process =>
    unfold Guest.does
    rw [hplay]
    refine ⟨_, rfl, ?_⟩
    have hreceived := (processAll_spec g.session.inbox p g.session).2.1
    change (Play.processAll g.session.inbox p g.session).2.1.verdict.isSome = true
    rw [hreceived]
    exact receiveAll_isSome _ hverdict
  | reportDeath =>
    have hkept : (p.reportDeath g.session).2.1.verdict = p.verdict := by
      unfold Play.reportDeath
      split
      · rfl
      · split <;> rfl
    unfold Guest.does
    rw [hplay]
    exact ⟨_, rfl, hkept ▸ hverdict⟩
  | leave =>
    unfold Guest.does
    rw [hplay]
    exact ⟨p, rfl, hverdict⟩

end Guest

namespace House

variable {seeds : Nat → UInt64} {interval patience : Nat} {start : Time} {h : House}
  {id : PlayerId} {v : Visit} {g : Guest} {p : Play}

/-- A guest was told of no verdict or of the only one that names it, and that is on its only match. -/
theorem Kept.judged (hk : h.Kept seeds interval patience start) (hp : h.Plays id v g p) :
    ∃ q, matchesOf id h.course.deeds = [q] ∧ p.playerId = id ∧
      ((p.verdict = none ∧ p.arena.isOver .here = false ∧ p.arena.isOver .there = false) ∨
        ∃ w, verdictsOf id h.course.deeds = [w] ∧ q.SettledBy w ∧ p.verdict = some w ∧
          (w.winner = id → p.Won) ∧ (w.winner ≠ id → p.Lost)) := by
  obtain ⟨seed, before, since, hs, hplays, -, -, hfront, -⟩ := hk.plays hp
  obtain ⟨-, q, -, hfirst, -⟩ := hk.ready hp.guest? hs
  have hmatches : matchesOf id h.course.deeds = [q] := by
    have honce := hk.matches_le hp.guest?
    obtain ⟨rest, hrest⟩ := List.head?_eq_some_iff.mp hfirst
    rw [hrest, List.length_cons] at honce
    obtain rfl : rest = [] := List.length_eq_zero_iff.mp (by omega)
    exact hrest
  have haccounted : h.course.Accounted := by
    rw [hk.course]
    exact Course.accounted_run seeds interval patience start h.met
  -- what was heard came down the line, and the hall put it there
  have hheard : (decisions since).Sublist (verdictsOf id h.course.deeds) := by
    have hqueued := (hk.visit id v hp.visit).queued
    have hsent : before ++ since <+: sends (h.course.deeds.filterMap (Deed.call? id)) :=
      (hfront.trans hqueued.down.got_isPrefix).trans
        (hqueued.said.trans (spoken_isPrefix_sends _))
    have hsince : since.Sublist (sends (h.course.deeds.filterMap (Deed.call? id))) :=
      (List.sublist_append_right before since).trans hsent.sublist
    exact (hsince.filterMap verdictIn?).trans (haccounted.sent id)
  refine ⟨q, hmatches, hplays.number, ?_⟩
  rcases haccounted.only_verdict hmatches with hnone | ⟨w, hw, hsettled⟩
  · rw [hnone] at hheard
    exact .inl (hplays.undecided (List.sublist_nil.mp hheard))
  · rw [hw] at hheard
    rcases List.sublist_singleton.mp hheard with hnone | hone
    · exact .inl (hplays.undecided hnone)
    · exact .inr ⟨w, hw, hsettled, hplays.decided hone⟩

/-- What a guest was told is the only verdict that names it. -/
theorem Kept.told (hk : h.Kept seeds interval patience start) (hp : h.Plays id v g p) {w : Verdict}
    (hw : p.verdict = some w) :
    ∃ q, matchesOf id h.course.deeds = [q] ∧ verdictsOf id h.course.deeds = [w] ∧ q.SettledBy w ∧
      (w.winner = id → p.Won) ∧ (w.winner ≠ id → p.Lost) := by
  obtain ⟨q, hq, -, ⟨hnone, -⟩ | ⟨w', hverdicts, hsettled, hsome, hmarks⟩⟩ := hk.judged hp
  · rw [hnone] at hw
    cases hw
  · rw [hw] at hsome
    cases hsome
    exact ⟨q, hq, hverdicts, hsettled, hmarks⟩

/-- The verdict names the guest once, as the winner or as the loser, and the guest marks just the side
that lost. -/
theorem Kept.marked (hk : h.Kept seeds interval patience start) (hp : h.Plays id v g p) {w : Verdict}
    (hw : p.verdict = some w) :
    w.winner = id ∧ w.loser ≠ id ∧ p.Won ∨ w.loser = id ∧ w.winner ≠ id ∧ p.Lost := by
  obtain ⟨q, hq, -, hsettled, hwon, hlost⟩ := hk.told hp hw
  have hown : q ∈ matchesOf id h.course.deeds := by
    rw [hq]
    exact List.mem_singleton_self q
  rcases hsettled.mem_iff.mp (mem_members_of_matchesOf hown) with hwinner | hloser
  · exact .inl ⟨hwinner, fun hl => hsettled.1 (hwinner.trans hl.symm), hwon hwinner⟩
  · have hne : w.winner ≠ id := fun hw => hsettled.1 (hw.trans hloser.symm)
    exact .inr ⟨hloser, hne, hlost hne⟩

/-- The two of a match are told of the same verdict. -/
theorem Kept.same_verdict (hk : h.Kept seeds interval patience start) {x y : PlayerId}
    {vx vy : Visit} {gx gy : Guest} {px py : Play} (hpx : h.Plays x vx gx px)
    (hpy : h.Plays y vy gy py) {q : Pairing} (hqx : q ∈ matchesOf x h.course.deeds)
    (hqy : q ∈ matchesOf y h.course.deeds) {wx wy : Verdict} (hwx : px.verdict = some wx)
    (hwy : py.verdict = some wy) : wx = wy ∧ q.SettledBy wx := by
  obtain ⟨qx, hmatchx, hverdictx, hsettled, -⟩ := hk.told hpx hwx
  obtain ⟨-, -, hverdicty, -, -⟩ := hk.told hpy hwy
  rw [hmatchx] at hqx
  obtain rfl := List.mem_singleton.mp hqx
  -- the verdict that `x` was told of names `y` too
  have hnamed : wx ∈ verdictsOf y h.course.deeds := by
    have hmade : wx ∈ verdictsOf x h.course.deeds := by
      rw [hverdictx]
      exact List.mem_singleton_self wx
    refine List.mem_filter.mpr ⟨(List.mem_filter.mp hmade).1, decide_eq_true ?_⟩
    exact hsettled.mem_iff.mp (mem_members_of_matchesOf hqy)
  rw [hverdicty] at hnamed
  exact ⟨List.mem_singleton.mp hnamed, hsettled⟩

theorem lasting_decided : Lasting fun guest => ∃ g, guest = some g ∧ g.Decided := by
  constructor
  · rintro _ gesture ⟨g, hguest, hg⟩
    cases hguest
    exact ⟨_, rfl, hg.does gesture⟩
  · rintro _ session ⟨g, hguest, p, hplay, hsome⟩
    cases hguest
    exact ⟨_, rfl, p, hplay, hsome⟩

/-- What a guest was told once it is told for good, for there is no second verdict that names it. -/
theorem Kept.told_for_good {h' : House} (hk : h.Kept seeds interval patience start)
    (hk' : h'.Kept seeds interval patience start) (as : List Act) (hrun : h' = h.run seeds as)
    (hp : h.Plays id v g p) {w : Verdict} (hw : p.verdict = some w) :
    ∃ v' g' p', h'.Plays id v' g' p' ∧ p'.verdict = some w := by
  have hstands : h.Stands id fun guest => ∃ g, guest = some g ∧ g.Decided :=
    ⟨v, hp.visit, g, hp.guest, p, hp.play, by rw [hw]; rfl⟩
  obtain ⟨v', hv', g', hg', p', hplay', hsome⟩ := hstands.run lasting_decided seeds as
  rw [← hrun] at hv'
  have hp' : h'.Plays id v' g' p' := ⟨hv', hg', hplay'⟩
  obtain ⟨w', hw'⟩ := Option.isSome_iff_exists.mp hsome
  obtain ⟨-, -, hverdicts, -⟩ := hk.told hp hw
  obtain ⟨-, -, hverdicts', -⟩ := hk'.told hp' hw'
  obtain ⟨more, hmore⟩ := run_met_isPrefix seeds h as
  rw [← hrun] at hmore
  have hcourse : h'.course = h.course.run seeds more := hk.course_since hk' hmore.symm
  have hprefix := Course.verdicts_run_isPrefix seeds id h.course more
  rw [← hcourse, hverdicts, hverdicts'] at hprefix
  obtain ⟨rfl, -⟩ := List.cons_prefix_cons.mp hprefix
  exact ⟨v', g', p', hp', hw'⟩

/-- In a house where guests and strangers come, act and go in any order and octets arrive at any pace, a
guest that has not been told of a verdict has marked no side as lost. A guest that was told of one has
marked just the side that this verdict of the hall says, its own if it lost and the other if it won. If
both members of a match were told of a verdict, it is the same, and one has won and the other has lost.
What a guest was told at some time is what it knows at any later time. -/
theorem guests_agree_on_verdict (seeds : Nat → UInt64) (interval patience : Nat) (start : Time)
    (as : List Act) :
    let h := fun as => (opened interval patience start).run seeds as
    let c := fun os => (Course.opened interval patience start).run seeds os
    (∀ id v g p, (h as).Plays id v g p → p.playerId = id ∧
      (p.verdict = none → p.arena.isOver .here = false ∧ p.arena.isOver .there = false) ∧
      ∀ w, p.verdict = some w → w ∈ (h as).course.verdicts ∧
        (w.winner = id ∧ w.loser ≠ id ∧ p.Won ∨ w.loser = id ∧ w.winner ≠ id ∧ p.Lost)) ∧
    (∀ before o after q x y, (h as).met = before ++ o :: after → (c before).Forms seeds o q →
      q.members = [x, y] →
      ∀ vx gx px vy gy py, (h as).Plays x vx gx px → (h as).Plays y vy gy py →
      ∀ wx wy, px.verdict = some wx → py.verdict = some wy → wx = wy ∧
        (wx = ⟨x, y⟩ ∧ px.Won ∧ py.Lost ∨ wx = ⟨y, x⟩ ∧ px.Lost ∧ py.Won)) ∧
    ∀ as₁ as₂, as = as₁ ++ as₂ → ∀ id v g p w, (h as₁).Plays id v g p → p.verdict = some w →
      ∃ v' g' p', (h as).Plays id v' g' p' ∧ p'.verdict = some w := by
  intro h c
  have hkept (as : List Act) : (h as).Kept seeds interval patience start :=
    kept_run seeds interval patience start as
  refine ⟨?_, ?_, ?_⟩
  · intro id v g p hp
    obtain ⟨q, -, hnumber, hjudged⟩ := (hkept as).judged hp
    refine ⟨hnumber, ?_, ?_⟩
    · intro hnone
      rcases hjudged with ⟨-, hmarks⟩ | ⟨w, -, -, hsome, -⟩
      · exact hmarks
      · rw [hnone] at hsome
        cases hsome
    · intro w hw
      obtain ⟨-, -, hverdicts, -⟩ := (hkept as).told hp hw
      refine ⟨?_, (hkept as).marked hp hw⟩
      have hmade : w ∈ verdictsOf id (h as).course.deeds := by
        rw [hverdicts]
        exact List.mem_singleton_self w
      exact (List.mem_filter.mp hmade).1
  · intro before o after q x y hmet hforms hmembers vx gx px vy gy py hpx hpy wx wy hwx hwy
    have hmatch {id : PlayerId} (hid : id ∈ q.members) : q ∈ matchesOf id (h as).course.deeds :=
      ((hkept as).matches_behind hmet hforms hid).subset
        (List.mem_append_right _ (List.mem_singleton_self q))
    obtain ⟨rfl, hsettled⟩ := (hkept as).same_verdict hpx hpy (hmatch (by simp [hmembers]))
      (hmatch (by simp [hmembers])) hwx hwy
    obtain ⟨-, -, -, -, hwonx, hlostx⟩ := (hkept as).told hpx hwx
    obtain ⟨-, -, -, -, hwony, hlosty⟩ := (hkept as).told hpy hwy
    have hne : wx.winner ≠ wx.loser := hsettled.1
    refine ⟨rfl, ?_⟩
    rcases hsettled.eq_or_eq hmembers with rfl | rfl
    · exact .inl ⟨rfl, hwonx rfl, hlosty hne⟩
    · exact .inr ⟨rfl, hlostx hne, hwony rfl⟩
  · intro as₁ as₂ has id v g p w hp hw
    refine (hkept as₁).told_for_good (hkept as) as₂ ?_ hp hw
    rw [has]
    simp [h, House.run]

/-- The two of the encounter play and both report their death, and the hall hears guest 2 first. -/
def duel : List Act :=
  encounter ++ [.does 1 .begin, .does 2 .begin, .does 1 .reportDeath, .does 2 .reportDeath,
    .rises 2 20, .handles 2 8, .rises 1 20, .handles 1 8,
    .falls 1 100, .does 1 .process, .falls 2 100, .does 2 .process]

/-- Both are told that guest 1 won. Guest 1 still knows when guest 2 has left and its own line broke. -/
theorem double_death_settled :
    let h := (opened 5 5 0).run (fun _ => 7) duel
    let h' := (opened 5 5 0).run (fun _ => 7) (duel ++ [.does 2 .leave, .breaks 1])
    (∃ vx gx px vy gy py, h.Plays 1 vx gx px ∧ h.Plays 2 vy gy py ∧
      px.verdict = some ⟨1, 2⟩ ∧ py.verdict = some ⟨1, 2⟩ ∧ px.Won ∧ py.Lost) ∧
    ∃ v g p, h'.Plays 1 v g p ∧ p.verdict = some ⟨1, 2⟩ ∧ p.Won := by
  have hx : (((opened 5 5 0).run (fun _ => 7) duel).visits 1).any (fun v => v.guest.any fun g =>
      g.play.any fun p => decide (p.verdict = some ⟨1, 2⟩)) = true := by decide +kernel
  have hy : (((opened 5 5 0).run (fun _ => 7) duel).visits 2).any (fun v => v.guest.any fun g =>
      g.play.any fun p => decide (p.verdict = some ⟨1, 2⟩)) = true := by decide +kernel
  simp only [Option.any_eq_true, decide_eq_true_eq] at hx hy
  obtain ⟨vx, hvx, gx, hgx, px, hpx, hwx⟩ := hx
  obtain ⟨vy, hvy, gy, hgy, py, hpy, hwy⟩ := hy
  have hforms : ((Course.opened 5 5 0).run (fun _ => 7)
      [.notice 0 (.connected 1), .notice 1 (.message 1 (.register ⟨0, 3⟩)),
        .notice 2 (.message 1 .requestRoomJoin), .notice 3 (.connected 2),
        .notice 4 (.message 2 (.register ⟨0, 4⟩))]).Forms (fun _ => 7)
      (.notice 5 (.message 2 .requestRoomJoin)) ⟨[1, 2], 7⟩ :=
    ⟨by decide +kernel, by decide +kernel, rfl, by decide +kernel, by decide +kernel,
      by decide +kernel⟩
  obtain ⟨-, hagree, -⟩ := guests_agree_on_verdict (fun _ => 7) 5 5 0 duel
  obtain ⟨hmarks, -, hkeep⟩ := guests_agree_on_verdict (fun _ => 7) 5 5 0
    (duel ++ [.does 2 .leave, .breaks 1])
  have hboth := hagree _ _ (((opened 5 5 0).run (fun _ => 7) duel).met.drop 6) _ 1 2
    (by decide +kernel) hforms rfl vx gx px vy gy py ⟨hvx, hgx, hpx⟩ ⟨hvy, hgy, hpy⟩ _ _ hwx hwy
  obtain ⟨v, g, p, hp, hw⟩ := hkeep duel _ rfl 1 vx gx px _ ⟨hvx, hgx, hpx⟩ hwx
  refine ⟨⟨vx, gx, px, vy, gy, py, ⟨hvx, hgx, hpx⟩, ⟨hvy, hgy, hpy⟩, hwx, hwy, ?_⟩,
    v, g, p, hp, hw, ?_⟩
  · obtain ⟨-, ⟨-, hwon, hlost⟩ | ⟨hother, -⟩⟩ := hboth
    · exact ⟨hwon, hlost⟩
    · cases hother
  · obtain ⟨-, -, htold⟩ := hmarks 1 v g p hp
    obtain ⟨-, ⟨-, -, hwon⟩ | ⟨hlost, -⟩⟩ := htold _ hw
    · exact hwon
    · cases hlost

end House
end BlockDuel
