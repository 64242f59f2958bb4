import BlockDuel.Proofs.House.Agreement

/-!
What the opponent sees. In a match that goes on, whatever a guest has done to its half arrives at the
opponent as of the last showing, once all that was said has been heard; and nothing that is heard changes
the half of the one who hears it.
-/
namespace BlockDuel
open Wire Hall Seat

/-- All that a visitor said has reached the hall and was dealt with. -/
structure Visit.Delivered (v : Visit) : Prop where
  arrived : v.up.got = v.up.sent
  handled : v.waiting = []

/-- All that the hall said over the line has reached the guest and was dealt with. -/
structure Visit.Caught (v : Visit) (g : Guest) : Prop where
  takes : v.takes = true
  arrived : v.down.got = v.down.sent
  line : g.session.line ≠ none
  handled : g.session.inbox = []

namespace House

variable {seeds : Nat → UInt64} {interval patience : Nat} {start : Time} {h : House}
  {id a b : PlayerId} {v : Visit} {g : Guest} {p : Play}

/-- At the line there is a guest who plays. -/
structure Plays (h : House) (id : PlayerId) (v : Visit) (g : Guest) (p : Play) : Prop where
  visit : h.visits id = some v
  guest : v.guest = some g
  play : g.play = some p

theorem Plays.guest? (hp : h.Plays id v g p) : h.guest? id = some g :=
  guest?_eq_some.mpr ⟨v, hp.visit, hp.guest⟩

/-- What was heard before play could start was no report, and what was heard since then is in the match
or waits. -/
theorem Kept.plays (hk : h.Kept seeds interval patience start) (hp : h.Plays id v g p) :
    ∃ seed before since, g.joining.status = .ready seed id ∧ Seat.Plays seed id g.strokes since p ∧
      reports v.up.sent = shown (.start seed) g.strokes ∧ reports before = [] ∧
      before ++ since <+: v.down.got ∧ (g.session.line ≠ none →
        v.down.got = before ++ since ++ g.session.takes g.session.inbox) := by
  obtain ⟨-, -, hholds⟩ := (hk.visit id v hp.visit).guest g hp.guest
  obtain ⟨before, since, hprefix, hgot, hfollows, hneeded, hplayed⟩ := hholds.told
  unfold Guest.Played at hplayed
  rw [hp.play] at hplayed
  obtain ⟨seed, pid, hs, hplays, hreports⟩ := hplayed
  obtain ⟨rfl, -⟩ := hk.ready hp.guest? hs
  have hdecided : (Digest.of before).outcome.isSome = true := by
    have hstatus := hfollows.status
    rw [hs] at hstatus
    rw [show (Digest.of before).outcome = some (seed, pid) from hstatus]
    rfl
  obtain ⟨q, r, r', -, -, hlog, hbriefing⟩ :=
    hk.briefed hp.visit ((List.prefix_append before since).trans hprefix) hdecided
  have hquiet := Digest.unreported_of_briefed hneeded hlog hbriefing hdecided
  exact ⟨seed, before, since, hs, hplays, hreports, hquiet, hprefix, hgot⟩

/-- A guest says no reports before its first match. -/
theorem Kept.unreported (hk : h.Kept seeds interval patience start) (hh : h.Hosts id true)
    (hm : matchesOf id h.course.deeds = []) : reports (h.met.filterMap (Occasion.said? id)) = [] := by
  obtain ⟨v, hv, hsome⟩ := hh
  obtain ⟨g, hg⟩ := Option.isSome_iff_exists.mp hsome
  have hkv := hk.visit id v hv
  obtain ⟨hcarries, -, hholds⟩ := hkv.guest g hg
  suffices hsent : reports v.up.sent = [] by
    have hprefix := (hkv.said_isPrefix.trans hcarries.got_isPrefix).filter fun m => m.kind.relayed
    change reports _ <+: reports v.up.sent at hprefix
    rw [hsent] at hprefix
    exact List.prefix_nil.mp hprefix
  cases hplay : g.play with
  | none =>
    obtain ⟨_, _, _, _, _, _, hplayed⟩ := hholds.told
    unfold Guest.Played at hplayed
    rw [hplay] at hplayed
    exact hplayed.2.2
  | some p =>
    obtain ⟨seed, -, -, hs, -⟩ := hk.plays ⟨hv, hg, hplay⟩
    obtain ⟨-, q, -, hfirst, -⟩ := hk.ready (guest?_eq_some.mpr ⟨v, hv, hg⟩) hs
    rw [hm] at hfirst
    cases hfirst

/-- A match that began is on record of either member, behind the earlier ones. -/
theorem Kept.matches_behind (hk : h.Kept seeds interval patience start)
    {before after : List Occasion} {o : Occasion} {q : Pairing} (hmet : h.met = before ++ o :: after)
    (hforms : ((Course.opened interval patience start).run seeds before).Forms seeds o q)
    (hid : id ∈ q.members) :
    matchesOf id ((Course.opened interval patience start).run seeds before).deeds ++ [q] <+:
      matchesOf id h.course.deeds := by
  rw [hk.course_behind hmet, ← hforms.matches hid]
  exact Course.matches_run_isPrefix seeds id _ after

/-- The match of a guest that began at some time was its first one. -/
theorem Kept.first_match (hk : h.Kept seeds interval patience start) (hg : h.guest? id = some g)
    {before after : List Occasion} {o : Occasion} {q : Pairing} (hmet : h.met = before ++ o :: after)
    (hforms : ((Course.opened interval patience start).run seeds before).Forms seeds o q)
    (hid : id ∈ q.members) :
    matchesOf id ((Course.opened interval patience start).run seeds before).deeds = [] := by
  have honce := hk.matches_le hg
  have hle := (hk.matches_behind hmet hforms hid).length_le
  rw [List.length_append, List.length_singleton] at hle
  apply List.length_eq_zero_iff.mp
  omega

/-- All that a guest has reported it has said since its match began. -/
theorem Kept.reported (hk : h.Kept seeds interval patience start) (hp : h.Plays id v g p)
    (hd : v.Delivered) {before after : List Occasion} {o : Occasion} {q : Pairing}
    (hmet : h.met = before ++ o :: after)
    (hforms : ((Course.opened interval patience start).run seeds before).Forms seeds o q)
    (hid : id ∈ q.members)
    (hearly : reports (before.filterMap (Occasion.said? id)) = []) :
    reports (after.filterMap (Occasion.said? id)) = reports v.up.sent := by
  have hfresh := hk.fresh
  rw [hmet, List.append_cons] at hfresh
  obtain ⟨-, -, hquiet⟩ := hforms.unreported (Course.coherent_run before)
    (fun now ho => Course.newcomer_unlinked (Course.fresh_before hfresh) ho) hid
  have hsaid := (hk.visit id v hp.visit).said
  have hone : [o].filterMap (Occasion.said? id) = (o.said? id).toList := by
    cases ho : o.said? id <;> simp [ho]
  rw [hd.handled, hd.arrived, hmet, List.append_cons, List.filterMap_nil, List.append_nil,
    List.filterMap_append, List.filterMap_append, hone] at hsaid
  rw [← hsaid, reports_append, reports_append, hearly, hquiet id]
  rfl

/-- One who has caught up with a match that goes on has heard all reports of the opponent, no others and
no verdict. -/
theorem Kept.caught_up (hk : h.Kept seeds interval patience start) (hp : h.Plays b v g p)
    (hc : v.Caught g) {before after : List Occasion} {o : Occasion} {q : Pairing} {c : Course}
    (hcourse : c = (Course.opened interval patience start).run seeds before)
    (hmet : h.met = before ++ o :: after) (hforms : c.Forms seeds o q)
    (hpits : (c.next seeds o).hall.room.Pits a b) (hlasts : (c.next seeds o).Lasts seeds after) :
    ∃ since, g.joining.status = .ready q.seed b ∧ Seat.Plays q.seed b g.strokes since p ∧
      reports since = reports (after.filterMap (Occasion.said? a)) ∧
      ∀ m ∈ since, m.kind ≠ .gameOver := by
  have hb : b ∈ q.members := by
    have hmem := hpits.symm.mem
    rw [hforms.after] at hmem
    exact hmem
  have hforms' : ((Course.opened interval patience start).run seeds before).Forms seeds o q :=
    hcourse ▸ hforms
  obtain ⟨seed, heard, since, hs, hplays, -, hquiet, -, hgot⟩ := hk.plays hp
  obtain ⟨-, rfl, -⟩ := hk.ready_for hp.guest? hs hmet hforms' hb
  have hrun : h.course = (c.next seeds o).run seeds after := by
    rw [hcourse]
    exact hk.course_behind hmet
  -- the link is open, so what the guest has got is what the hall has asked of the link
  have hcalls : h.course.deeds.filterMap (Deed.call? b) = v.down.got.map .send := by
    rw [hc.arrived]
    exact (hk.visit b v hp.visit).queued.taken hc.takes
  have hlistens : ∀ call ∈ h.course.deeds.filterMap (Deed.call? b), ∃ m, call = .send m := by
    intro call hcall
    rw [hcalls] at hcall
    obtain ⟨m, -, rfl⟩ := List.mem_map.mp hcall
    exact ⟨m, rfl⟩
  have hfresh := hk.fresh
  rw [hmet] at hfresh
  obtain ⟨hroom, hreports⟩ := Course.reports_of_match hcourse hfresh hforms hpits hlasts
    (hcourse ▸ hk.first_match hp.guest? hmet hforms' hb) (hrun ▸ hlistens)
  rw [← hrun] at hroom hreports
  rw [hgot hc.line, hc.handled] at hcalls
  have htaken : heard ++ since ++ g.session.takes [] = heard ++ since := List.append_nil _
  rw [htaken] at hcalls
  refine ⟨since, hs, hplays, ?_, ?_⟩
  · rw [← hreports, hcalls, sends_map_send, reports_append, hquiet, List.nil_append]
  · intro m hm
    have hstage : h.course.hall.stage b = .playing q := by
      apply State.stage_playing
      · rw [hroom]
        exact hpits.symm.mem
      · rw [hroom, hforms.after]
        rfl
    refine Course.no_verdict hk.fresh hk.course hstage (hk.matches_le hp.guest?) hlistens ?_
    rw [hcalls]
    exact List.mem_map_of_mem (List.mem_append_right heard hm)

/-- From its start on, a guest plays for one seed. -/
theorem Kept.same_seed {h' : House} (hk : h.Kept seeds interval patience start)
    (hk' : h'.Kept seeds interval patience start) {more : List Occasion}
    (hmet : h'.met = h.met ++ more) {g' : Guest} (hg : h.guest? id = some g)
    (hg' : h'.guest? id = some g') {seed seed' : UInt64} {pid pid' : PlayerId}
    (hs : g.joining.status = .ready seed pid) (hs' : g'.joining.status = .ready seed' pid') :
    seed = seed' := by
  obtain ⟨-, q, rfl, hfirst, -⟩ := hk.ready hg hs
  obtain ⟨-, q', rfl, hfirst', -⟩ := hk'.ready hg' hs'
  obtain ⟨ps, hps⟩ := Course.matches_run_isPrefix seeds id h.course more
  rw [hk.course_since hk' hmet, ← hps, List.head?_append, hfirst] at hfirst'
  cases hfirst'
  rfl

/-- Before its match began, a guest had said no reports to the hall. -/
theorem reported_late {as : List Act}
    (hp : ((opened interval patience start).run seeds as).Plays a v g p)
    {before after : List Occasion} {o : Occasion} {q : Pairing}
    (hmet : ((opened interval patience start).run seeds as).met = before ++ o :: after)
    (hforms : ((Course.opened interval patience start).run seeds before).Forms seeds o q)
    (ha : a ∈ q.members) : reports (before.filterMap (Occasion.said? a)) = [] := by
  -- at the time when the hall had met only what came before the match
  obtain ⟨as₁, as₂, rfl, hmet₁⟩ :=
    exists_time (hmet ▸ List.prefix_append before (o :: after)) List.nil_prefix
  have hk₁ := kept_run seeds interval patience start as₁
  cases hv₁ : ((opened interval patience start).run seeds as₁).visits a with
  | none =>
    have hnotices := hk₁.empty a hv₁
    rw [hmet₁] at hnotices
    rw [said_eq, hnotices]
    rfl
  | some v₁ =>
    have hhosts : ((opened interval patience start).run seeds as₁).Hosts a true := by
      obtain ⟨v', hv', hg'⟩ := Hosts.run ⟨v₁, hv₁, rfl⟩ seeds as₂
      have hsame : ((opened interval patience start).run seeds as₁).run seeds as₂ =
          (opened interval patience start).run seeds (as₁ ++ as₂) := by simp [House.run]
      rw [hsame] at hv'
      obtain rfl : v = v' := Option.some_inj.mp (hp.visit.symm.trans hv')
      refine ⟨v₁, hv₁, hg'.symm.trans ?_⟩
      rw [hp.guest]
      rfl
    rw [← hmet₁]
    apply hk₁.unreported hhosts
    rw [hk₁.course, hmet₁]
    exact (kept_run seeds interval patience start (as₁ ++ as₂)).first_match hp.guest? hmet hforms ha

/-- Let a match go on from its beginning, all that `a` has said have been dealt with by the hall, and all
that the hall has said by `b`. Then `b` sees the falling piece, the held piece and the board of `a` as of
the last showing of `a`, and also the preview if it was set by then; the own half of `b`, its marks and
its bag are what `b` alone has made of them. What a showing shows is what the strokes before it have made
of a fresh arena, and so are the arenas themselves at any time. Without a line nothing is shown and
everything stays marked. -/
theorem last_showing_seen (seeds : Nat → UInt64) (interval patience : Nat) (start : Time)
    (as : List Act) :
    let h := fun as => (opened interval patience start).run seeds as
    let c := fun os => (Course.opened interval patience start).run seeds os
    ∀ before o after a b, (h as).met = before ++ o :: after →
      (c before).hall.room.phase ≠ .ready → (c (before ++ [o])).hall.room.Pits a b →
      (c (before ++ [o])).Lasts seeds after →
    ∀ va ga pa vb gb pb, (h as).Plays a va ga pa → (h as).Plays b vb gb pb → va.Delivered →
      vb.Caught gb → ∃ seed, ga.joining.status = .ready seed a ∧ gb.joining.status = .ready seed b ∧
      (∀ ss since, ga.strokes = ss ++ .shows :: since → .shows ∉ since →
        let own := (played (.start seed) ss).own
        let view := pb.arena.opponent
        view.falling = own.falling ∧ view.held = own.held ∧ view.board = own.board ∧
          (ss.any Stroke.previews = true → view.preview = own.preview)) ∧
      (.shows ∉ ga.strokes → { pb.arena.opponent with lost := false } = .fresh) ∧
      pb.arena.own = (played (.start seed) gb.strokes).own ∧
      pb.arena.changed = (played (.start seed) gb.strokes).changed ∧
      pb.arena.bag = (played (.start seed) gb.strokes).bag ∧
      (∀ as₁ as₂, as = as₁ ++ as₂ → ∀ v g p, (h as₁).Plays a v g p →
        alone p.arena = played (.start seed) g.strokes) ∧
      ∀ p s, s.isConnected = false → Play.sync p s = (0, p, s) := by
  intro h c before o after a b hmet hwaits hpits hlasts va ga pa vb gb pb hpa hpb hda hcb
  have hkept (as : List Act) : (h as).Kept seeds interval patience start :=
    kept_run seeds interval patience start as
  have hk := hkept as
  have hconcat : c (before ++ [o]) = (c before).next seeds o := Course.run_concat before o
  rw [hconcat] at hpits hlasts
  -- the match, of which both guests know the seed
  obtain ⟨q, hforms⟩ := Course.forms_of_ready (Course.coherent_run before) hwaits hpits.ready
  have hmembers : ((c before).next seeds o).hall.room.members = q.members := by rw [hforms.after]
  have ha : a ∈ q.members := hmembers ▸ hpits.mem
  have hb : b ∈ q.members := hmembers ▸ hpits.symm.mem
  obtain ⟨since, hsb, hplays, hheard, hunspoiled⟩ :=
    hk.caught_up hpb hcb rfl hmet hforms hpits hlasts
  obtain ⟨seed, -, -, hsa, -, hshown, -⟩ := hk.plays hpa
  obtain ⟨-, rfl, -⟩ := hk.ready_for hpa.guest? hsa hmet hforms ha
  have hearly := reported_late hpa hmet hforms ha
  have hview : { pb.arena.opponent with lost := false } =
      (shown (.start q.seed) ga.strokes).foldl see .fresh := by
    rw [hplays.theirs, foldl_see_reports, hheard, hk.reported hpa hda hmet hforms ha hearly, hshown]
  have hown : { pb.arena with opponent := .fresh } = played (.start q.seed) gb.strokes := by
    rw [← hplays.mine]
    unfold alone
    rw [← hplays.unspoiled hunspoiled]
  refine ⟨q.seed, hsa, hsb, ?_, ?_, ?_, ?_, ?_, ?_, ?_⟩
  · intro ss rest hss hrest own view
    have hsee := see_shown q.seed ss rest hrest
    rw [← hss, ← hview] at hsee
    exact hsee
  · intro hhidden
    rw [hview, shown_of_hidden hhidden]
    rfl
  · rw [← hown]
  · rw [← hown]
  · rw [← hown]
  · intro as₁ as₂ has v g p hp
    obtain ⟨seed, _, _, hs, hplays₁, -⟩ := (hkept as₁).plays hp
    have hlater : h as = (h as₁).run seeds as₂ := by
      rw [has]
      simp [h, House.run]
    obtain ⟨more, hmore⟩ := run_met_isPrefix seeds (h as₁) as₂
    rw [← hlater] at hmore
    obtain rfl : seed = q.seed := (hkept as₁).same_seed hk hmore.symm hp.guest? hpa.guest? hs hsa
    exact hplays₁.mine
  · intro p s hs
    unfold Play.sync
    rw [hs]
    rfl

/-- The two of the encounter play. One draws a piece, holds another, shows both and then holds none. -/
def contest : List Act :=
  encounter ++ [.does 1 .begin, .does 2 .begin, .does 1 (.stroke .spawn),
    .does 1 (.stroke (.held (some .T))), .does 1 (.stroke .shows), .does 1 (.stroke (.held none)),
    .rises 1 200, .handles 1 8, .handles 1 8, .handles 1 8, .falls 2 200, .does 2 .process]

/-- The other one sees what was shown. -/
theorem contest_seen :
    let h := (opened 5 5 0).run (fun _ => 7) contest
    let own := (played (.start 7) [.spawn, .held (some .T)]).own
    ∃ v g p, h.Plays 2 v g p ∧ p.arena.opponent.held = some .T ∧
      p.arena.opponent.falling = own.falling ∧ p.arena.opponent.preview = own.preview := by
  have hx : (((opened 5 5 0).run (fun _ => 7) contest).visits 1).any (fun v =>
      decide (v.up.got = v.up.sent) && decide (v.waiting = []) && v.guest.any fun g =>
        decide (g.strokes = [.spawn, .held (some .T), .shows, .held none]) && g.play.isSome) =
      true := by decide +kernel
  have hy : (((opened 5 5 0).run (fun _ => 7) contest).visits 2).any (fun v =>
      v.takes && decide (v.down.got = v.down.sent) && v.guest.any fun g =>
        g.session.line.isSome && decide (g.session.inbox = []) && g.play.isSome &&
          decide (g.joining.status = .ready 7 2)) = true := by decide +kernel
  simp only [Option.any_eq_true, Bool.and_eq_true, decide_eq_true_eq] at hx hy
  obtain ⟨va, hva, ⟨harrived, hhandled⟩, ga, hga, hstrokes, hplaya⟩ := hx
  obtain ⟨vb, hvb, ⟨htakes, hgot⟩, gb, hgb, ⟨⟨hline, hinbox⟩, hplayb⟩, hready⟩ := hy
  obtain ⟨pa, hpa⟩ := Option.isSome_iff_exists.mp hplaya
  obtain ⟨pb, hpb⟩ := Option.isSome_iff_exists.mp hplayb
  obtain ⟨seed, -, hsb, hseen, -⟩ := last_showing_seen (fun _ => 7) 5 5 0 contest
    [.notice 0 (.connected 1), .notice 1 (.message 1 (.register ⟨0, 3⟩)),
      .notice 2 (.message 1 .requestRoomJoin), .notice 3 (.connected 2),
      .notice 4 (.message 2 (.register ⟨0, 4⟩))]
    (.notice 5 (.message 2 .requestRoomJoin))
    (((opened 5 5 0).run (fun _ => 7) contest).met.drop 6)
    1 2 (by decide +kernel) (by decide +kernel)
    ⟨by decide, by decide +kernel, .inl (by decide +kernel)⟩ (by decide +kernel)
    va ga pa vb gb pb ⟨hva, hga, hpa⟩ ⟨hvb, hgb, hpb⟩ ⟨harrived, hhandled⟩
    ⟨htakes, hgot, Option.isSome_iff_ne_none.mp hline, hinbox⟩
  rw [hready] at hsb
  cases hsb
  obtain ⟨hfalling, hheld, -, hpreview⟩ := hseen [.spawn, .held (some .T)] [.held none] hstrokes
    (by decide)
  exact ⟨vb, gb, pb, ⟨hvb, hgb, hpb⟩, hheld.trans rfl, hfalling, hpreview rfl⟩

end House
end BlockDuel
