import BlockDuel.Proofs.Hall.Departure
import BlockDuel.Proofs.Hall.Reports
import BlockDuel.Proofs.Hall.Silence

/-!
Several players who time out together. A look after the silent players cuts their links in the order
in which it visits them, the links tell of their ends in that order, and in that order the players leave
the room; so the order decides who wins a match of two silent players. Nobody who is still there can
tell: what is left of the hall, and what the others are told, depends only on who is lost.
-/
namespace BlockDuel

namespace Link

variable {l : Link}

/-- The owner will hear of it if the link is cut now. -/
def endsUnheard (l : Link) : Bool := l.phase ≠ .closed && !l.reported

theorem disconnect_notices :
    l.disconnect.notices = l.notices ++ if l.endsUnheard then [.lost l.id] else [] := by
  by_cases hp : l.phase = .closed
  · simp [disconnect, endsUnheard, hp]
  · by_cases hr : l.reported = true
    · simp [disconnect, finish, endsUnheard, hp, hr]
    · simp [disconnect, finish, endsUnheard, hp, hr]

/-- A message to send is no news for the owner. -/
theorem send_tells (m : Wire.Message) : (l.send m).id = l.id ∧ (l.send m).notices = l.notices ∧
    (l.send m).endsUnheard = l.endsUnheard := by
  unfold send
  split <;> exact ⟨rfl, rfl, rfl⟩

end Link

namespace Hall
open Wire

/-- The links when a hall has asked for one thing. -/
def Deed.work (links : PlayerId → Link) (d : Deed) : PlayerId → Link :=
  fun x => ((d.call? x).map (·.run (links x))).getD (links x)

/-- What the links tell when a hall asks for one thing after the other. -/
def told (links : PlayerId → Link) : List Deed → List Notice
  | [] => []
  | d :: ds =>
    (d.link?.toList.flatMap fun x => (d.work links x).notices.drop (links x).notices.length) ++
      told (d.work links) ds

section

variable {links : PlayerId → Link} {x y : PlayerId}

theorem work_cut_self : (Deed.cut x).work links x = (links x).disconnect := by
  simp [Deed.work, Deed.call?, Link.Call.run]

theorem work_cut_other (h : y ≠ x) : (Deed.cut x).work links y = links y := by
  simp [Deed.work, Deed.call?, h.symm]

theorem work_post (m : Message) : (Deed.post x m).work links y =
    if x = y then (links y).send m else links y := by
  by_cases h : x = y <;> simp [Deed.work, Deed.call?, Link.Call.run, h]

/-- Links that are cut tell of their ends in this order. -/
theorem told_cuts {xs : List PlayerId} (hn : xs.Nodup) (own : ∀ x ∈ xs, (links x).id = x) :
    told links (xs.map .cut) = (xs.filter fun x => (links x).endsUnheard).map .lost := by
  induction xs generalizing links with
  | nil => rfl
  | cons x xs ih =>
    obtain ⟨hx, hn⟩ := List.nodup_cons.mp hn
    have hrest (y : PlayerId) (hy : y ∈ xs) : (Deed.cut x).work links y = links y :=
      work_cut_other (ne_of_mem_of_not_mem hy hx)
    have hown : ∀ y ∈ xs, ((Deed.cut x).work links y).id = y := by
      intro y hy
      rw [hrest y hy]
      exact own y (List.mem_cons_of_mem x hy)
    have hfilter : (xs.filter fun y => ((Deed.cut x).work links y).endsUnheard) =
        xs.filter fun y => (links y).endsUnheard :=
      List.filter_congr fun y hy => by rw [hrest y hy]
    have hid := own x List.mem_cons_self
    change ([x].flatMap fun y => ((Deed.cut x).work links y).notices.drop _) ++
      told ((Deed.cut x).work links) (xs.map .cut) = _
    rw [ih hn hown, hfilter, List.flatMap_singleton, work_cut_self, Link.disconnect_notices,
      List.drop_left, hid, List.filter_cons]
    split <;> rfl

/-- Messages before the cuts make no difference to that. -/
theorem told_sends_cuts {ds : List Deed} (sends : ∀ d ∈ ds, ∃ y m, d = .post y m ∨ d = .miss y m)
    {xs : List PlayerId} (hn : xs.Nodup) (own : ∀ x, (links x).id = x) :
    told links (ds ++ xs.map .cut) = (xs.filter fun x => (links x).endsUnheard).map .lost := by
  induction ds generalizing links with
  | nil => exact told_cuts hn fun x _ => own x
  | cons d ds ih =>
    have hds : ∀ d ∈ ds, ∃ y m, d = .post y m ∨ d = .miss y m := fun d' hd' =>
      sends d' (List.mem_cons_of_mem d hd')
    obtain ⟨y, m, rfl | rfl⟩ := sends d List.mem_cons_self
    · have hsame (x : PlayerId) : ((Deed.post y m).work links x).id = (links x).id ∧
          ((Deed.post y m).work links x).notices = (links x).notices ∧
          ((Deed.post y m).work links x).endsUnheard = (links x).endsUnheard := by
        rw [work_post]
        split
        · exact Link.send_tells m
        · exact ⟨rfl, rfl, rfl⟩
      have hrest := ih hds fun x => (hsame x).1.trans (own x)
      simp only [hsame] at hrest
      change ([y].flatMap fun x => ((Deed.post y m).work links x).notices.drop _) ++
        told ((Deed.post y m).work links) (ds ++ xs.map .cut) = _
      rw [hrest, List.flatMap_singleton, (hsame y).2.1, List.drop_length, List.nil_append]
    · exact ih hds own

end

namespace Roll

variable {f : Registration → Registration}

/-- The same change for several players, all at once. -/
theorem adjustAll_eq (hf : ∀ g, f (f g) = f g) (r : Roll) (ids : List PlayerId) :
    ids.foldl (fun roll id => roll.adjust id f) r =
      { r with registrations :=
        ⟨r.registrations.entries.map fun e => if e.1 ∈ ids then (e.1, f e.2) else e⟩ } := by
  induction ids generalizing r with
  | nil => simp
  | cons id ids ih =>
    rw [List.foldl_cons, ih]
    simp only [adjust, Table.adjust, List.map_map]
    congr 2
    apply List.map_congr_left
    intro e _
    by_cases hid : e.1 = id
    · by_cases hids : id ∈ ids <;> simp [hid, hids, hf]
    · simp [hid]

end Roll

namespace State

variable {s s' : State} {seed : UInt64} {now : Time} {ds : List Deed} {order order' : List PlayerId}
  {x y : PlayerId}

/-- Those who are given up, in the order in which they are visited. -/
theorem silent_eq (h : s.Coherent) (now : Time) (order : List PlayerId) : s.silent now order =
    order.filter fun x => (s.roll.registration? x).any (silenced s.heartbeat now) := by
  have hsilent : s.silent now order =
      ((order.filterMap s.roll.registration?).filter (silenced s.heartbeat now)).map (·.id) := by
    rw [← silenced_due s.heartbeat now]
    rfl
  rw [hsilent]
  clear hsilent
  induction order with
  | nil => rfl
  | cons x order ih =>
    cases hg : s.roll.registration? x with
    | none => simpa [hg] using ih
    | some g =>
      have hid : g.id = x := (h.orderly.genuine _ (Table.mem_of_get? hg)).2.1
      by_cases hs : silenced s.heartbeat now g = true
      · simpa [hg, hs, hid] using ih
      · simpa [hg, hs] using ih

theorem mem_silent_iff (h : s.Coherent) (thorough : (Occasion.check now order).Thorough s) :
    x ∈ s.silent now order ↔
      (s.roll.registration? x).any (silenced s.heartbeat now) = true := by
  rw [silent_eq h, List.mem_filter, and_iff_right_iff_imp]
  intro hs
  cases hg : s.roll.registration? x with
  | none => simp [hg] at hs
  | some g => exact thorough.2 x (Table.mem_ids_of_get? hg)

/-- So the order of the visits does not matter for who is given up. -/
theorem mem_silent_congr (h : s.Coherent) (thorough : (Occasion.check now order).Thorough s)
    (thorough' : (Occasion.check now order').Thorough s) (x : PlayerId) :
    x ∈ s.silent now order' ↔ x ∈ s.silent now order := by
  rw [mem_silent_iff h thorough, mem_silent_iff h thorough']

/-- A look pings, and then cuts those who are given up. -/
theorem checkLiveness_cuts (h : s.Coherent) (now : Time) (order : List PlayerId) :
    ∃ pings : List Deed, (∀ d ∈ pings, ∃ y m, d = .post y m ∨ d = .miss y m) ∧
      (s.checkLiveness now order).2 = pings ++ (s.silent now order).map .cut := by
  refine ⟨_, ?_, congrArg (_ ++ ·) (congrArg (List.map Deed.cut) (List.filter_eq_self.mpr ?_))⟩
  · intro d hd
    split at hd
    · obtain ⟨g, -, rfl⟩ := List.mem_map.mp hd
      refine ⟨g.id, .serverPing, ?_⟩
      unfold send
      split
      · exact .inl rfl
      · exact .inr rfl
    · cases hd
  · intro x hx
    obtain ⟨g, hg, -⟩ := mem_silent h hx
    rw [Roll.hasLink_iff, Roll.adjustAll_links]
    exact h.orderly.linked x (Table.mem_ids_of_get? hg)

theorem cut_iff_silent (h : s.Coherent) :
    .cut x ∈ (s.checkLiveness now order).2 ↔ x ∈ s.silent now order := by
  refine ⟨mem_silent_of_cut, fun hx => ?_⟩
  obtain ⟨pings, -, hdeeds⟩ := checkLiveness_cuts h now order
  rw [hdeeds]
  exact List.mem_append_right pings (List.mem_map_of_mem hx)

/-- The order of the visits makes no difference to the books. -/
theorem checkLiveness_congr (h : s.Coherent) (thorough : (Occasion.check now order).Thorough s)
    (thorough' : (Occasion.check now order').Thorough s) :
    (s.checkLiveness now order').1 = (s.checkLiveness now order).1 := by
  have hsilent := mem_silent_congr h thorough thorough'
  change State.mk ((s.silent now order').foldl _ s.roll) _ _ =
    State.mk ((s.silent now order).foldl _ s.roll) _ _
  rw [Roll.adjustAll_eq (f := fun g => { g with closing := true }) fun _ => rfl,
    Roll.adjustAll_eq (f := fun g => { g with closing := true }) fun _ => rfl]
  simp only [hsilent]

/-- The order of the visits makes no difference to a single link. -/
theorem checkLiveness_calls_congr (h : s.Coherent)
    (thorough : (Occasion.check now order).Thorough s)
    (thorough' : (Occasion.check now order').Thorough s) (x : PlayerId) :
    (s.checkLiveness now order').2.filterMap (Deed.call? x) =
      (s.checkLiveness now order).2.filterMap (Deed.call? x) := by
  cases hg : s.roll.registration? x with
  | none =>
    have hx : x ∉ s.roll.registrations.ids := Table.get?_eq_none_iff.mp hg
    rw [checkLiveness_unasked h hx, checkLiveness_unasked h hx]
  | some g => rw [checkLiveness_calls h thorough hg, checkLiveness_calls h thorough' hg]

/-- What is left of a hall that has lost the links `gone`. -/
def without (s : State) (gone : List PlayerId) : State :=
  { s with
    roll := ⟨s.roll.links.filter (· ∉ gone), ⟨s.roll.registrations.entries.filter (·.1 ∉ gone)⟩⟩
    room := if ∃ x ∈ s.room.members, x ∈ gone then .fresh else s.room }

/-- A player whose opponent is among the `gone` wins the match and hears of the leaving. -/
def bereft (s : State) (gone : List PlayerId) (y : PlayerId) : List Link.Call :=
  match s.room.other? y with
  | some x =>
    if s.room.phase = .ready ∧ y ∈ s.room.members ∧ x ∈ gone then
      [.send (.gameOver ⟨y, x⟩), .send (.roomPlayerLeft x)]
    else []
  | none => []

theorem without_congr {gone gone' : List PlayerId} (h : ∀ x, x ∈ gone' ↔ x ∈ gone) :
    s.without gone' = s.without gone := by
  simp only [without, h]

theorem bereft_congr {gone gone' : List PlayerId} (h : ∀ x, x ∈ gone' ↔ x ∈ gone) (y : PlayerId) :
    s.bereft gone' y = s.bereft gone y := by
  simp only [bereft, h]

theorem without_nil : s.without [] = s := by
  simp [without]

/-- One who leaves a room empties it. -/
theorem Leaves.room_eq {tell : Message → Deed} {r r' : Room} (h : Leaves tell x r r' ds) :
    r' = if x ∈ r.members then .fresh else r := by
  cases h with
  | stranger out => exact (if_neg out).symm
  | alone => exact (if_pos List.mem_cons_self).symm
  | concedes pits => exact (if_pos pits.mem).symm

/-- To lose one link and then others is to lose them all. -/
theorem without_cons (h : s'.room = if x ∈ s.room.members then .fresh else s.room)
    (hroll : s'.roll = (s.roll.remove x).2) (hheart : s'.heartbeat = s.heartbeat)
    (gone : List PlayerId) : s'.without gone = s.without (x :: gone) := by
  have hlinks : s'.roll.links.filter (· ∉ gone) = s.roll.links.filter (· ∉ x :: gone) := by
    rw [hroll]
    simp only [Roll.remove, List.filter_filter]
    apply List.filter_congr
    intro y _
    by_cases hy : y = x <;> simp [hy]
  have hentries : s'.roll.registrations.entries.filter (·.1 ∉ gone) =
      s.roll.registrations.entries.filter (·.1 ∉ x :: gone) := by
    rw [hroll]
    simp only [Roll.remove, Table.erase, List.filter_filter]
    apply List.filter_congr
    intro e _
    by_cases he : e.1 = x <;> simp [he]
  have hroom : (if ∃ y ∈ s'.room.members, y ∈ gone then Room.fresh else s'.room) =
      if ∃ y ∈ s.room.members, y ∈ x :: gone then Room.fresh else s.room := by
    rw [h]
    by_cases hx : x ∈ s.room.members
    · have hany : ∃ y ∈ s.room.members, y ∈ x :: gone := ⟨x, hx, List.mem_cons_self⟩
      rw [if_pos hx, if_pos hany, ite_self]
    · have hsame : (∃ y ∈ s.room.members, y ∈ x :: gone) ↔ ∃ y ∈ s.room.members, y ∈ gone := by
        refine exists_congr fun y => and_congr_right fun hy => ?_
        rw [List.mem_cons, or_iff_right (ne_of_mem_of_not_mem hy hx)]
      rw [if_neg hx]
      simp only [hsame]
  unfold without
  rw [hlinks, hentries, hroom, hheart]

theorem bereft_nil (y : PlayerId) : s.bereft [] y = [] := by
  unfold bereft
  split
  · simp
  · rfl

theorem bereft_of_pits (pits : s.room.Pits y x) (gone : List PlayerId) : s.bereft gone y =
    if x ∈ gone then [.send (.gameOver ⟨y, x⟩), .send (.roomPlayerLeft x)] else [] := by
  unfold bereft
  simp [pits.other?, pits.ready, pits.mem]

theorem bereft_of_not_playing (h : s.room.phase = .ready → y ∉ s.room.members)
    (gone : List PlayerId) : s.bereft gone y = [] := by
  unfold bereft
  split
  · exact if_neg fun hp => h hp.1 hp.2.1
  · rfl

/-- What one player hears of the losses is what the first one brings and what the others bring. -/
theorem Leaves.bereft (hs : s.room.Sound) (h : Leaves (.miss x) x s.room s'.room ds) (hy : y ≠ x)
    (gone : List PlayerId) :
    ds.filterMap (Deed.call? y) ++ s'.bereft gone y = s.bereft (x :: gone) y := by
  generalize hr : s.room = r at h
  generalize hr' : s'.room = r' at h
  have hfresh (he : s'.room = .fresh) : s'.bereft gone y = [] :=
    bereft_of_not_playing (by simp [he, Room.fresh]) gone
  cases h with
  | stranger out =>
    rw [← hr] at out hr'
    by_cases hp : s.room.phase = .ready ∧ y ∈ s.room.members
    · obtain ⟨z, pits⟩ := hs.pits hp.1 hp.2
      have hz : z ≠ x := ne_of_mem_of_not_mem pits.symm.mem out
      rw [bereft_of_pits pits, bereft_of_pits (hr' ▸ pits)]
      simp [hz]
    · have hn : s.room.phase = .ready → y ∉ s.room.members := fun hr hm => hp ⟨hr, hm⟩
      rw [bereft_of_not_playing hn, bereft_of_not_playing (hr' ▸ hn)]
      rfl
  | alone =>
    rw [hfresh hr', bereft_of_not_playing (by simp [hr])]
    rfl
  | @concedes _ z pits =>
    rw [hfresh hr', List.append_nil]
    by_cases hz : y = z
    · subst hz
      rw [bereft_of_pits (hr ▸ pits.symm)]
      simp [List.filterMap_cons, Deed.call?]
    · have hout : y ∉ s.room.members := by
        rw [hr, pits.mem_iff]
        rintro (rfl | rfl)
        · exact hy rfl
        · exact hz rfl
      rw [bereft_of_not_playing fun _ => hout]
      simp [Deed.call?, Ne.symm hz]

end State

namespace Course

variable {c : Course} {later : Time}

/-- The notices that some links are lost. -/
def losses (later : Time) (gone : List PlayerId) : List Occasion :=
  gone.map fun x => .notice later (.lost x)

theorem next_loss (seeds : Nat → UInt64) (hc : c.hall.Coherent) (later : Time) (x : PlayerId) :
    let c' := c.next seeds (.notice later (.lost x))
    ∃ ds, c'.made = c.made ∧ c'.deeds = c.deeds ++ ds ∧
      c'.hall.roll = (c.hall.roll.remove x).2 ∧ c'.hall.heartbeat = c.hall.heartbeat ∧
      State.Leaves (.miss x) x c.hall.room c'.hall.room ds := by
  intro c'
  obtain ⟨room, hroom, leaves⟩ :=
    (State.meet_moves hc (seeds c.made) (.notice later (.lost x))).departs hc
  have hquiet : (c.hall.meet (seeds c.made) (.notice later (.lost x))).2.filterMap Deed.pairing? = [] :=
    State.onLost_opens_nothing
  have hnext : c' = _ := next_eq _
  rw [hnext]
  dsimp only
  rw [hquiet, hroom]
  exact ⟨_, rfl, rfl, rfl, rfl, leaves⟩

/-- What comes of it that some links are lost. -/
theorem run_losses (seeds : Nat → UInt64) (hc : c.hall.Coherent) (later : Time) (gone : List PlayerId) :
    let w := c.run seeds (losses later gone)
    w.hall = c.hall.without gone ∧ w.made = c.made ∧ ∀ y, y ∉ gone →
      w.deeds.filterMap (Deed.call? y) =
        c.deeds.filterMap (Deed.call? y) ++ c.hall.bereft gone y := by
  induction gone generalizing c with
  | nil =>
    refine ⟨State.without_nil.symm, rfl, fun y _ => ?_⟩
    rw [State.bereft_nil, List.append_nil]
    rfl
  | cons x gone ih =>
    obtain ⟨ds, hmade, hdeeds, hroll, hheart, leaves⟩ := next_loss seeds hc later x
    have hnext : (c.next seeds (.notice later (.lost x))).hall.Coherent := next_coherent hc _
    obtain ⟨hhall, hmade', hcalls⟩ := ih hnext
    refine ⟨?_, hmade'.trans hmade, ?_⟩
    · exact hhall.trans (State.without_cons leaves.room_eq hroll hheart gone)
    · intro y hy
      obtain ⟨hne, hy⟩ := not_or.mp (mt List.mem_cons.mpr hy)
      refine (hcalls y hy).trans ?_
      rw [hdeeds, List.filterMap_append, List.append_assoc, leaves.bereft hc.room hne gone]

theorem next_check (seeds : Nat → UInt64) (c : Course) (now : Time) (order : List PlayerId) :
    c.next seeds (.check now order) = ⟨(c.hall.checkLiveness now order).1, c.made,
      c.deeds ++ (c.hall.checkLiveness now order).2⟩ := by
  rw [next_eq]
  change Course.mk _ (c.made + ((c.hall.checkLiveness now order).2.filterMap Deed.pairing?).length) _ = _
  rw [State.checkLiveness_opens_nothing]
  rfl

/-- A hall looks after the silent players, whom it visits in some order, and then hears which links are
lost by that. -/
def timesOut (seeds : Nat → UInt64) (links : PlayerId → Link) (c : Course) (now later : Time)
    (order : List PlayerId) : Course :=
  (c.next seeds (.check now order)).run seeds
    ((told links (c.hall.checkLiveness now order).2).map (.notice later))

/-- The links that are lost by a look after the silent players. -/
theorem timesOut_eq (hc : c.hall.Coherent) {now later : Time} {order : List PlayerId}
    {links : PlayerId → Link} (own : ∀ x, (links x).id = x) (hn : order.Nodup) :
    c.timesOut seeds links now later order =
      (c.next seeds (.check now order)).run seeds
        (losses later ((c.hall.silent now order).filter fun x => (links x).endsUnheard)) := by
  obtain ⟨pings, hsends, hdeeds⟩ := State.checkLiveness_cuts hc now order
  have hsilent : (c.hall.silent now order).Nodup := by
    rw [State.silent_eq hc]
    exact hn.filter _
  unfold timesOut losses
  rw [hdeeds, told_sends_cuts hsends hsilent own, List.map_map]
  rfl

/-- What is left when several players time out together, what the others hear, and what is said over the
links that are lost. -/
theorem timesOut_outcome (seeds : Nat → UInt64) (hc : c.hall.Coherent) {now : Time} (later : Time)
    {order : List PlayerId} {links : PlayerId → Link} (own : ∀ x, (links x).id = x) (hn : order.Nodup) :
    let w := c.timesOut seeds links now later order
    let looked := c.hall.checkLiveness now order
    let gone := (c.hall.silent now order).filter fun x => (links x).endsUnheard
    let done := c.deeds ++ looked.2
    w.hall = looked.1.without gone ∧ w.made = c.made ∧ ∀ x,
      (x ∉ gone → w.deeds.filterMap (Deed.call? x) =
        done.filterMap (Deed.call? x) ++ looked.1.bereft gone x) ∧
      (x ∈ gone → Link.spoken (w.deeds.filterMap (Deed.call? x)) =
        Link.spoken (done.filterMap (Deed.call? x))) := by
  intro w looked gone done
  have hlooked : looked.1.Coherent := (State.meet_moves hc 0 (.check now order)).coherent hc
  have hw : w = run seeds ⟨looked.1, c.made, c.deeds ++ looked.2⟩ (losses later gone) := by
    rw [← next_check seeds]
    exact timesOut_eq hc own hn
  obtain ⟨hhall, hmade, hothers⟩ :=
    run_losses seeds (c := ⟨looked.1, c.made, c.deeds ++ looked.2⟩) hlooked later gone
  rw [← hw] at hhall hmade hothers
  refine ⟨hhall, hmade, fun x => ⟨hothers x, fun hx => ?_⟩⟩
  obtain ⟨ds, hds⟩ := run_deeds_isPrefix seeds ⟨looked.1, c.made, c.deeds ++ looked.2⟩
    (losses later gone)
  have hcut : .cut x ∈ c.deeds ++ looked.2 :=
    List.mem_append_right _ ((State.cut_iff_silent hc).mpr (List.mem_filter.mp hx).1)
  rw [hw, ← hds, List.filterMap_append]
  exact Link.spoken_closed (mem_cut_iff.mp hcut) (by simp) _

/-- The order of the visits decides nothing but who of two lost players wins. A look after the silent
players, whom it visits in one order or in another, and then the losses of the links that it has cut, in
the order in which the links tell of them, leave the same hall behind. The same links are cut. Every
other link is asked for the same, and also over a link that is cut the same is said before it closes. -/
theorem order_unnoticed (seeds : Nat → UInt64) (interval patience : Nat) (start : Time)
    (os : List Occasion) (links : PlayerId → Link) (own : ∀ x, (links x).id = x) (now later : Time)
    (order order' : List PlayerId)
    (thorough : (Occasion.check now order).Thorough ((opened interval patience start).run seeds os).hall)
    (thorough' :
      (Occasion.check now order').Thorough ((opened interval patience start).run seeds os).hall) :
    let c := (opened interval patience start).run seeds os
    let w := c.timesOut seeds links now later order
    let w' := c.timesOut seeds links now later order'
    w'.hall = w.hall ∧ w'.made = w.made ∧ ∀ x,
      (.cut x ∈ (c.hall.checkLiveness now order').2 ↔ .cut x ∈ (c.hall.checkLiveness now order).2) ∧
      (.cut x ∉ (c.hall.checkLiveness now order).2 →
        w'.deeds.filterMap (Deed.call? x) = w.deeds.filterMap (Deed.call? x)) ∧
      Link.spoken (w'.deeds.filterMap (Deed.call? x)) =
        Link.spoken (w.deeds.filterMap (Deed.call? x)) := by
  intro c w w'
  have hc : c.hall.Coherent := coherent_run os
  have hsilent := State.mem_silent_congr hc thorough thorough'
  let gone := (c.hall.silent now order).filter fun x => (links x).endsUnheard
  let gone' := (c.hall.silent now order').filter fun x => (links x).endsUnheard
  have hgone (x : PlayerId) : x ∈ gone' ↔ x ∈ gone := by
    rw [List.mem_filter, List.mem_filter, hsilent]
  have hlook := State.checkLiveness_congr hc thorough thorough'
  have hasked (x : PlayerId) :
      (c.deeds ++ (c.hall.checkLiveness now order').2).filterMap (Deed.call? x) =
        (c.deeds ++ (c.hall.checkLiveness now order).2).filterMap (Deed.call? x) := by
    rw [List.filterMap_append, List.filterMap_append,
      State.checkLiveness_calls_congr hc thorough thorough']
  obtain ⟨hleft, hmade, hcalls⟩ := timesOut_outcome seeds hc later own thorough.1
  obtain ⟨hleft', hmade', hcalls'⟩ := timesOut_outcome seeds hc later own thorough'.1
  have hothers (x : PlayerId) (hx : x ∉ gone) :
      w'.deeds.filterMap (Deed.call? x) = w.deeds.filterMap (Deed.call? x) := by
    rw [(hcalls' x).1 (mt (hgone x).mp hx), (hcalls x).1 hx, hasked, hlook, State.bereft_congr hgone]
  refine ⟨?_, hmade'.trans hmade.symm, fun x => ⟨?_, ?_, ?_⟩⟩
  · rw [hleft', hleft, hlook, State.without_congr hgone]
  · rw [State.cut_iff_silent hc, State.cut_iff_silent hc, hsilent]
  · intro hx
    rw [State.cut_iff_silent hc] at hx
    exact hothers x fun hgone => hx (List.mem_filter.mp hgone).1
  · by_cases hx : x ∈ gone
    · rw [(hcalls' x).2 ((hgone x).mpr hx), (hcalls x).2 hx, hasked]
    · rw [hothers x hx]

/-- Both players of a match time out in one look. Whoever is visited first loses, but the third player
and the hall never know. -/
theorem visited_first_loses :
    let seeds : Nat → UInt64 := fun _ => 7
    let c := (opened 5 10 0).run seeds
      [.notice 0 (.connected 1), .notice 0 (.connected 2), .notice 0 (.connected 3),
        .notice 1 (.message 1 (.register ⟨0, 3⟩)), .notice 1 (.message 2 (.register ⟨0, 4⟩)),
        .notice 2 (.message 1 .requestRoomJoin), .notice 2 (.message 2 .requestRoomJoin),
        .notice 9 (.message 3 (.register ⟨0, 5⟩))]
    let w := c.timesOut seeds (Link.spawn · 5000 true) 12 13 [1, 2, 3]
    let w' := c.timesOut seeds (Link.spawn · 5000 true) 12 13 [3, 2, 1]
    w.verdicts = [⟨2, 1⟩] ∧ w'.verdicts = [⟨1, 2⟩] ∧ w'.hall = w.hall ∧
      w'.deeds.filterMap (Deed.call? 3) = w.deeds.filterMap (Deed.call? 3) := by
  intro seeds c w w'
  obtain ⟨hhall, -, hplayers⟩ := order_unnoticed seeds 5 10 0
    [.notice 0 (.connected 1), .notice 0 (.connected 2), .notice 0 (.connected 3),
      .notice 1 (.message 1 (.register ⟨0, 3⟩)), .notice 1 (.message 2 (.register ⟨0, 4⟩)),
      .notice 2 (.message 1 .requestRoomJoin), .notice 2 (.message 2 .requestRoomJoin),
      .notice 9 (.message 3 (.register ⟨0, 5⟩))]
    (Link.spawn · 5000 true) (fun _ => rfl) 12 13 [1, 2, 3] [3, 2, 1] (by decide) (by decide)
  exact ⟨by decide, by decide, hhall, (hplayers 3).2.1 (by decide)⟩

end Course
end Hall
end BlockDuel
