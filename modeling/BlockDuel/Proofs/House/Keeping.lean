import BlockDuel.Proofs.House.Guests

/-!
What a house keeps up. The hall has met what came over the lines, the notices of each line in their
order; what it asked of a line has gone down that line as far as the line took it; and every guest
keeps up what a guest keeps up.
-/
namespace BlockDuel
open Wire Hall Seat

namespace Hall

variable {s s' : State} {seed : UInt64} {o : Occasion} {id : PlayerId} {m : Message}

theorem Composes.fits (h : Composes s s' seed o id m) (hs' : s'.Coherent) : m.Fits := by
  cases h with
  | welcome | ping | pong | answer | start => exact Nat.zero_le _
  | number | newcomer | seed | verdict | leaving => exact Message.fits_carrying _ _ (by decide)
  | roster kind joins =>
    have hmembers : (s'.room.members.filterMap s'.roll.registration?).length ≤ roomCapacity :=
      Nat.le_trans (List.length_filterMap_le _ _) hs'.room.length_le
    have hroster : s'.roster.length ≤ roomCapacity := by
      unfold State.roster
      rw [List.length_map]
      exact hmembers
    unfold Message.Fits
    rw [Message.roomPlayerList, Message.length_roster]
    have hwidth : Layout.width Player = 8 := rfl
    have hmax : 4 + roomCapacity * 8 ≤ maxPayload := by decide
    omega

theorem Source.fits (h : Source s s' seed o id m) (hs' : s'.Coherent)
    (ho : ∀ x m, o.said? x = some m → m.Fits) : m.Fits := by
  cases h with
  | copy relayed pits => exact ho _ _ (if_pos rfl)
  | composed own composes => exact composes.fits hs'

theorem Course.calls_fit {seeds : Nat → UInt64} {c : Course} (hc : c.hall.Coherent)
    (ho : ∀ x m, o.said? x = some m → m.Fits) {d : Deed}
    (hd : d ∈ (c.hall.meet (seeds c.made) o).2) (hm : d.call? id = some (.send m)) : m.Fits := by
  have hmoves := State.meet_moves hc (seeds c.made) o
  exact (hmoves.source hd (Deed.sent?_of_call? hm)).fits (hmoves.coherent hc) ho

/-- The notice of a link that a hall deals with. -/
def Occasion.notice? (id : PlayerId) : Occasion → Option Notice
  | notice _ n => if n.id = id then some n else none
  | check _ _ => none

end Hall

def Notice.text? : Notice → Option Message
  | message _ m => some m
  | connected _ | lost _ => none

namespace Hall

variable {os : List Occasion} {id : PlayerId}

theorem said?_eq (o : Occasion) : o.said? id = (o.notice? id).bind Notice.text? := by
  cases o with
  | check now order => rfl
  | notice now n =>
    simp only [Occasion.said?, Occasion.notice?]
    cases n with
    | message other m =>
      by_cases h : other = id <;> simp [h, Notice.id, Notice.text?]
    | connected other | lost other =>
      by_cases h : other = id <;> simp [h, Notice.id, Notice.text?]

theorem said_eq (os : List Occasion) :
    os.filterMap (Occasion.said? id) = (os.filterMap (Occasion.notice? id)).filterMap Notice.text? := by
  rw [List.filterMap_filterMap]
  exact congrArg (List.filterMap · os) (funext said?_eq)

/-- A link comes as often as it says so. -/
theorem count_newcomer (os : List Occasion) :
    (os.filterMap Occasion.newcomer?).count id =
      (os.filterMap (Occasion.notice? id)).count (.connected id) := by
  induction os with
  | nil => rfl
  | cons o os ih =>
    cases o with
    | check now order => exact ih
    | notice now n =>
      simp only [List.filterMap_cons, Occasion.notice?]
      cases n with
      | connected other | message other m | lost other =>
        by_cases h : other = id <;> simp [Occasion.newcomer?, Notice.id, h, ih]

end Hall

namespace Visit

variable {v : Visit} {id : PlayerId} {os : List Occasion} {ds : List Deed}

/-- What is kept up about one visit, if the hall has met `os` and done `ds`. -/
structure Kept (v : Visit) (id : PlayerId) (os : List Occasion) (ds : List Deed) : Prop where
  notices : os.filterMap (Occasion.notice? id) ++ v.waiting =
    .connected id :: (v.up.got.map (.message id) ++ if v.broken then [.lost id] else [])
  whole : ∀ m ∈ v.up.got, m.Fits
  queued : v.Queued (ds.filterMap (Deed.call? id))
  guest : ∀ g, v.guest = some g →
    v.up.Carries ∧ g.session.outgoing = [] ∧ g.Holds v.up.sent v.down.got

/-- What the hall has heard of a visitor, and what waits, is what came up the line. -/
theorem Kept.said (h : v.Kept id os ds) :
    os.filterMap (Occasion.said? id) ++ v.waiting.filterMap Notice.text? = v.up.got := by
  have htexts (ms : List Message) : (ms.map (.message id)).filterMap Notice.text? = ms := by
    rw [List.filterMap_map]
    exact List.filterMap_some
  rw [said_eq, ← List.filterMap_append, h.notices, List.filterMap_cons_none rfl,
    List.filterMap_append, htexts]
  split <;> exact List.append_nil _

theorem Kept.said_isPrefix (h : v.Kept id os ds) : os.filterMap (Occasion.said? id) <+: v.up.got :=
  ⟨_, h.said⟩

/-- A visitor comes once. -/
theorem Kept.comes_once (h : v.Kept id os ds) : (os.filterMap Occasion.newcomer?).count id ≤ 1 := by
  have hwhole := congrArg (List.count (.connected id)) h.notices
  have hother : (v.up.got.map (Notice.message id) ++
      if v.broken then [Notice.lost id] else []).count (.connected id) = 0 := by
    rw [List.count_eq_zero]
    intro hmem
    rcases List.mem_append.mp hmem with hmem | hmem
    · obtain ⟨m, -, hm⟩ := List.mem_map.mp hmem
      cases hm
    · split at hmem
      · cases List.mem_singleton.mp hmem
      · cases hmem
  rw [List.count_append, List.count_cons_self, hother] at hwhole
  rw [count_newcomer]
  omega

theorem Kept.opened {guest : Option Guest}
    (hg : ∀ g, guest = some g → g.session.outgoing = [] ∧ g.Holds [] [])
    (hos : os.filterMap (Occasion.notice? id) = []) (hds : ds.filterMap (Deed.call? id) = []) :
    (Visit.opened guest id).Kept id os ds := by
  refine ⟨?_, (fun m hm => nomatch hm), ?_, ?_⟩
  · rw [hos]
    rfl
  · rw [hds]
    exact ⟨.empty, List.prefix_rfl, fun _ => rfl⟩
  · intro g h
    obtain ⟨hout, hholds⟩ := hg g h
    exact ⟨.empty, hout, hholds⟩

theorem Kept.does (h : v.Kept id os ds) (gesture : Gesture) : (v.does gesture).Kept id os ds := by
  unfold Visit.does
  cases hg : v.guest with
  | none => exact h
  | some g =>
    obtain ⟨hcarries, hout, hholds⟩ := h.guest g hg
    obtain ⟨ms, hacts⟩ := hholds.does gesture
    have hspoken : (g.does gesture).session.outgoing = ms := by
      rw [hacts.outgoing, hout, List.nil_append]
    refine ⟨h.notices, h.whole, ⟨h.queued.down, h.queued.said, h.queued.taken⟩, ?_⟩
    intro g' hg'
    cases hg'
    change (v.up.put (g.does gesture).session.outgoing).Carries ∧ _ ∧
      Guest.Holds _ (v.up.sent ++ (g.does gesture).session.outgoing) v.down.got
    rw [hspoken]
    exact ⟨hcarries.put hacts.fits, rfl, hacts.holds.flushed⟩

theorem Kept.spills (h : v.Kept id os ds) (bs : Bytes) : (v.spills bs).Kept id os ds := by
  unfold Visit.spills
  split
  · next hg =>
    refine ⟨h.notices, h.whole, ⟨h.queued.down, h.queued.said, h.queued.taken⟩, ?_⟩
    intro g hg'
    cases hg.symm.trans hg'
  · exact h

theorem Kept.breaks (h : v.Kept id os ds) : (v.breaks id).Kept id os ds := by
  unfold Visit.breaks
  split
  · exact h
  · next ho =>
    refine ⟨?_, h.whole, ⟨h.queued.down, h.queued.said, (fun ht => nomatch ht)⟩, h.guest⟩
    have hnotices := h.notices
    rw [if_neg ho, List.append_nil] at hnotices
    change _ ++ (v.waiting ++ [.lost id]) = _ :: (_ ++ [.lost id])
    rw [← List.append_assoc, hnotices]
    rfl

theorem Kept.rises (h : v.Kept id os ds) (n : Nat) : (v.rises id n).Kept id os ds := by
  unfold Visit.rises
  by_cases ho : v.broken = true
  · rw [if_pos ho]
    exact h
  · rw [if_neg ho]
    dsimp only
    have hcome : Kept { v with
        up := (v.up.arrive n).2.2
        waiting := v.waiting ++ (v.up.arrive n).1.map (.message id) } id os ds := by
      refine ⟨?_, ?_, ⟨h.queued.down, h.queued.said, h.queued.taken⟩, ?_⟩
      · have hnotices := h.notices
        rw [if_neg ho, List.append_nil] at hnotices
        change _ ++ (v.waiting ++ _) = _ :: (_ ++ if v.broken then _ else _)
        rw [← List.append_assoc, hnotices, if_neg ho, List.append_nil, Stream.got_arrive,
          List.map_append]
        rfl
      · intro m hm
        rcases List.mem_append.mp hm with hm | hm
        · exact h.whole m hm
        · exact fits_of_drain _ m hm
      · intro g hg
        obtain ⟨hcarries, hout, hholds⟩ := h.guest g hg
        exact ⟨(hcarries.arrive n).2, hout, hholds⟩
    split
    · exact hcome.breaks
    · exact hcome

theorem Kept.falls (h : v.Kept id os ds) (n : Nat) : (v.falls n).Kept id os ds := by
  unfold Visit.falls
  split
  · exact h
  · next g hg =>
    split
    · next line hl =>
      obtain ⟨hcarries, hout, hholds⟩ := h.guest g hg
      obtain rfl : line = 1 := hholds.line _ hl
      obtain ⟨hfault, hdown⟩ := h.queued.down.arrive n
      have hheard := hholds.hears hl (v.down.arrive n).1
      have hquiet : ((v.down.arrive n).1.foldl (fun s m => s.hear (.message 1 m)) g.session).outgoing =
          g.session.outgoing := by
        generalize g.session = s
        generalize (v.down.arrive n).1 = ms
        induction ms generalizing s with
        | nil => rfl
        | cons m ms ih => exact ih _
      simp only [hfault]
      refine ⟨h.notices, h.whole, ⟨hdown, h.queued.said, h.queued.taken⟩, ?_⟩
      intro g' hg'
      cases hg'
      exact ⟨hcarries, hquiet.trans hout, hheard⟩
    · exact h

/-- The hall meets one more occasion, with the notice of the visitor if it is one. -/
theorem Kept.meets (h : v.Kept id os ds) {o : Occasion} {waiting : List Notice} {ds' : List Deed}
    (hw : v.waiting = (o.notice? id).toList ++ waiting)
    (hf : ∀ d ∈ ds', ∀ m, d.call? id = some (.send m) → m.Fits) :
    ((ds'.filterMap (Deed.call? id)).foldl Visit.obeys { v with waiting := waiting }).Kept id
      (os ++ [o]) (ds ++ ds') := by
  obtain ⟨hguest, hup, hwaiting, hover, hgot⟩ :=
    obeysAll_same { v with waiting := waiting } (ds'.filterMap (Deed.call? id))
  have hqueued : Queued { v with waiting := waiting } (ds.filterMap (Deed.call? id)) :=
    ⟨h.queued.down, h.queued.said, h.queued.taken⟩
  have hone : [o].filterMap (Occasion.notice? id) = (o.notice? id).toList := by
    cases hn : o.notice? id <;> simp [hn]
  refine ⟨?_, ?_, ?_, ?_⟩
  · rw [hwaiting, hup, hover, List.filterMap_append, hone, List.append_assoc]
    change _ ++ (_ ++ waiting) = _
    rw [← hw]
    exact h.notices
  · rw [hup]
    exact h.whole
  · rw [List.filterMap_append]
    apply hqueued.obeysAll
    intro m hm
    obtain ⟨d, hd, hdm⟩ := List.mem_filterMap.mp hm
    exact hf d hd m hdm
  · intro g hg
    rw [hup, hgot]
    exact h.guest g (hguest.symm.trans hg)

end Visit

namespace House

variable {seeds : Nat → UInt64} {interval patience : Nat} {start : Time} {h : House}

/-- What is kept up in a house. -/
structure Kept (seeds : Nat → UInt64) (interval patience : Nat) (start : Time) (h : House) :
    Prop where
  course : h.course = (Course.opened interval patience start).run seeds h.met
  empty : ∀ id, h.visits id = none → h.met.filterMap (Occasion.notice? id) = []
  visit : ∀ id v, h.visits id = some v → v.Kept id h.met h.course.deeds

/-- Every link comes once. -/
theorem Kept.fresh (hk : h.Kept seeds interval patience start) :
    (h.met.filterMap Occasion.newcomer?).Nodup := by
  rw [List.nodup_iff_count]
  intro id
  cases hv : h.visits id with
  | none =>
    rw [count_newcomer, hk.empty id hv]
    exact Nat.zero_le 1
  | some v => exact (hk.visit id v hv).comes_once

theorem Kept.opened : (House.opened interval patience start).Kept seeds interval patience start :=
  ⟨rfl, fun _ _ => rfl, fun _ _ hv => nomatch hv⟩

/-- Whatever happens on one line alone is a matter of that line. -/
theorem Kept.adjust (hk : h.Kept seeds interval patience start) (id : PlayerId) {f : Visit → Visit}
    (hf : ∀ v, v.Kept id h.met h.course.deeds → (f v).Kept id h.met h.course.deeds) :
    (h.adjust id f).Kept seeds interval patience start := by
  refine ⟨hk.course, ?_, ?_⟩
  · intro x hx
    refine hk.empty x ?_
    by_cases he : x = id
    · subst he
      simpa [House.adjust] using hx
    · simpa [House.adjust, Function.update_of_ne he] using hx
  · intro x v hx
    by_cases he : x = id
    · subst he
      have hx' : (h.visits x).map f = some v := by simpa [House.adjust] using hx
      obtain ⟨v', hv', rfl⟩ := Option.map_eq_some_iff.mp hx'
      exact hf v' (hk.visit x v' hv')
    · exact hk.visit x v (by simpa [House.adjust, Function.update_of_ne he] using hx)

theorem Kept.letIn (hk : h.Kept seeds interval patience start) (id : PlayerId) {guest : Option Guest}
    (hg : ∀ g, guest = some g → g.session.outgoing = [] ∧ g.Holds [] []) :
    (h.letIn id guest).Kept seeds interval patience start := by
  unfold House.letIn
  split
  · exact hk
  · next hn =>
    have hv : h.visits id = none := by simpa using hn
    have hos := hk.empty id hv
    have hds : h.course.deeds.filterMap (Deed.call? id) = [] := by
      rw [hk.course]
      apply Course.calls_of_nobody
      rw [← List.count_eq_zero, count_newcomer, hos]
      rfl
    refine ⟨hk.course, ?_, ?_⟩
    · intro x hx
      by_cases he : x = id
      · subst he
        exact hos
      · exact hk.empty x (by simpa [Function.update_of_ne he] using hx)
    · intro x v hx
      by_cases he : x = id
      · subst he
        obtain rfl : Visit.opened guest x = v := by simpa using hx
        exact .opened hg hos hds
      · exact hk.visit x v (by simpa [Function.update_of_ne he] using hx)

/-- The hall meets an occasion that takes up to one notice off each line. -/
theorem Kept.meets (hk : h.Kept seeds interval patience start) {o : Occasion} {h' : House}
    (rest : PlayerId → List Notice)
    (hmet : h'.met = h.met ++ [o]) (hcourse : h'.course = h.course.next seeds o)
    (hvisits : ∀ id, h'.visits id = (h.visits id).map fun v =>
      (((h.course.hall.meet (seeds h.course.made) o).2.filterMap (Deed.call? id)).foldl Visit.obeys
        { v with waiting := rest id }))
    (hnone : ∀ id, h.visits id = none → o.notice? id = none)
    (hsome : ∀ id v, h.visits id = some v → v.waiting = (o.notice? id).toList ++ rest id) :
    h'.Kept seeds interval patience start := by
  have hcoherent : h.course.hall.Coherent := by
    rw [hk.course]
    exact Course.coherent_run h.met
  -- what the hall hears came up a line
  have hfits (x : PlayerId) (m : Message) (hs : o.said? x = some m) : m.Fits := by
    rw [said?_eq] at hs
    obtain ⟨n, hn, hm⟩ := Option.bind_eq_some_iff.mp hs
    cases hv : h.visits x with
    | none =>
      rw [hnone x hv] at hn
      cases hn
    | some v =>
      have hkv := hk.visit x v hv
      refine hkv.whole m ?_
      rw [← hkv.said, List.mem_append]
      right
      rw [hsome x v hv, hn, List.mem_filterMap]
      exact ⟨n, List.mem_cons_self, hm⟩
  refine ⟨?_, ?_, ?_⟩
  · rw [hmet, hcourse, hk.course, Course.run_concat]
  · intro id hid
    rw [hvisits, Option.map_eq_none_iff] at hid
    rw [hmet, List.filterMap_append, hk.empty id hid]
    simp [hnone id hid]
  · intro id v' hv'
    rw [hvisits] at hv'
    obtain ⟨v, hv, rfl⟩ := Option.map_eq_some_iff.mp hv'
    rw [hmet, hcourse, Course.next_eq]
    apply (hk.visit id v hv).meets (hsome id v hv)
    intro d hd m hm
    exact Course.calls_fit hcoherent hfits hd hm

theorem drop_next (c : Course) (o : Occasion) :
    (c.next seeds o).deeds.drop c.deeds.length = (c.hall.meet (seeds c.made) o).2 := by
  rw [Course.next_eq]
  exact List.drop_left

theorem Kept.checks (hk : h.Kept seeds interval patience start) (now : Time)
    (order : List PlayerId) : (h.meets seeds (.check now order)).Kept seeds interval patience start := by
  refine hk.meets (fun id => ((h.visits id).map Visit.waiting).getD []) rfl rfl ?_
    (fun _ _ => rfl) ?_
  · intro id
    unfold House.meets
    dsimp only
    rw [drop_next]
    cases hv : h.visits id <;> simp
  · intro id v hv
    simp [Occasion.notice?, hv]

theorem Kept.handles (hk : h.Kept seeds interval patience start) (id : PlayerId) (now : Time) :
    (h.handles seeds id now).Kept seeds interval patience start := by
  unfold House.handles
  split
  · next n rest hw =>
    obtain ⟨v, hv, hwaiting⟩ := Option.map_eq_some_iff.mp hw
    -- what waits on a line is about that line
    have hid : n.id = id := by
      have hkv := hk.visit id v hv
      have hmem : n ∈ Notice.connected id :: (v.up.got.map (.message id) ++
          if v.broken then [.lost id] else []) := by
        rw [← hkv.notices, hwaiting]
        simp
      rcases List.mem_cons.mp hmem with rfl | hmem
      · rfl
      · rcases List.mem_append.mp hmem with hmem | hmem
        · obtain ⟨m, -, rfl⟩ := List.mem_map.mp hmem
          rfl
        · split at hmem
          · rw [List.mem_singleton.mp hmem]
            rfl
          · cases hmem
    have hother {x : PlayerId} (hx : x ≠ id) : (Occasion.notice now n).notice? x = none :=
      if_neg fun he => hx (he.symm.trans hid)
    have hown : (Occasion.notice now n).notice? id = some n := if_pos hid
    refine hk.meets
      (fun x => if x = id then rest else ((h.visits x).map Visit.waiting).getD []) rfl rfl ?_ ?_ ?_
    · intro x
      unfold House.meets House.adjust
      dsimp only
      rw [drop_next]
      by_cases hx : x = id
      · subst hx
        simp [hv]
      · rw [Function.update_of_ne hx, if_neg hx]
        cases hvx : h.visits x <;> simp
    · intro x hx
      apply hother
      rintro rfl
      cases hv.symm.trans hx
    · intro x v' hx
      by_cases he : x = id
      · subst he
        obtain rfl : v = v' := by simpa using hv.symm.trans hx
        rw [hown, if_pos rfl, hwaiting]
        rfl
      · rw [hother he, if_neg he, hx]
        rfl
  · exact hk

/-- Whatever happens in a house, it keeps up what it has kept up. -/
theorem Kept.act (hk : h.Kept seeds interval patience start) (a : Act) :
    (h.act seeds a).Kept seeds interval patience start := by
  cases a with
  | arrives id patience avatar now =>
    refine hk.letIn id ?_
    intro g hg
    cases hg
    exact ⟨rfl, .arrives patience avatar now⟩
  | intrudes id => exact hk.letIn id fun g hg => nomatch hg
  | does id gesture => exact hk.adjust id fun v hv => hv.does gesture
  | spills id bs => exact hk.adjust id fun v hv => hv.spills bs
  | rises id n => exact hk.adjust id fun v hv => hv.rises n
  | handles id now => exact hk.handles id now
  | checks now order => exact hk.checks now order
  | falls id n => exact hk.adjust id fun v hv => hv.falls n
  | breaks id => exact hk.adjust id fun v hv => hv.breaks

theorem kept_run (seeds : Nat → UInt64) (interval patience : Nat) (start : Time) (as : List Act) :
    ((opened interval patience start).run seeds as).Kept seeds interval patience start := by
  induction as using List.reverseRecOn with
  | nil => exact .opened
  | append_singleton as a ih =>
    rw [House.run, List.foldl_append]
    exact ih.act a

variable {as : List Act} {a : Act} {id : PlayerId}

theorem run_concat (h : House) (as : List Act) (a : Act) :
    h.run seeds (as ++ [a]) = (h.run seeds as).act seeds a := by
  simp [House.run]

theorem act_met (seeds : Nat → UInt64) (h : House) (a : Act) :
    (h.act seeds a).met = h.met ∨ ∃ o, (h.act seeds a).met = h.met ++ [o] := by
  cases a with
  | arrives | intrudes =>
    left
    change (h.letIn _ _).met = h.met
    unfold House.letIn
    split <;> rfl
  | does | spills | rises | falls | breaks => exact .inl rfl
  | checks now order => exact .inr ⟨_, rfl⟩
  | handles id now =>
    change (h.handles seeds id now).met = h.met ∨ ∃ o, (h.handles seeds id now).met = h.met ++ [o]
    unfold House.handles
    split
    · exact .inr ⟨_, rfl⟩
    · exact .inl rfl

theorem run_met_isPrefix (seeds : Nat → UInt64) (h : House) (as : List Act) :
    h.met <+: (h.run seeds as).met := by
  induction as using List.reverseRecOn with
  | nil => exact List.prefix_rfl
  | append_singleton as a ih =>
    rw [run_concat]
    rcases act_met seeds (h.run seeds as) a with hmet | ⟨o, hmet⟩
    · rw [hmet]
      exact ih
    · rw [hmet]
      exact ih.trans (List.prefix_append _ _)

/-- From one time to a later one, the hall goes on with what it meets in between. -/
theorem Kept.course_since (hk : h.Kept seeds interval patience start) {h' : House}
    (hk' : h'.Kept seeds interval patience start) {more : List Occasion}
    (hmet : h'.met = h.met ++ more) : h'.course = h.course.run seeds more := by
  rw [hk'.course, hk.course, hmet]
  simp [Course.run]

theorem Kept.course_behind (hk : h.Kept seeds interval patience start)
    {before after : List Occasion} {o : Occasion} (hmet : h.met = before ++ o :: after) :
    h.course =
      (((Course.opened interval patience start).run seeds before).next seeds o).run seeds after := by
  rw [hk.course, hmet]
  simp [Course.run]

/-- Whatever the hall has met up to some time, there was a time when it had met just that. -/
theorem exists_time {before : List Occasion} (hb : before <+: (h.run seeds as).met)
    (hnil : h.met <+: before) : ∃ as₁ as₂, as = as₁ ++ as₂ ∧ (h.run seeds as₁).met = before := by
  induction as using List.reverseRecOn with
  | nil => exact ⟨[], [], rfl, hnil.eq_of_length_le hb.length_le⟩
  | append_singleton as a ih =>
    have hearlier (hb' : before <+: (h.run seeds as).met) :
        ∃ as₁ as₂, as ++ [a] = as₁ ++ as₂ ∧ (h.run seeds as₁).met = before := by
      obtain ⟨as₁, as₂, rfl, hmet⟩ := ih hb'
      exact ⟨as₁, as₂ ++ [a], List.append_assoc .., hmet⟩
    have hrun : h.run seeds (as ++ [a]) = (h.run seeds as).act seeds a := run_concat h as a
    rcases act_met seeds (h.run seeds as) a with hmet | ⟨o, hmet⟩
    · rw [hrun, hmet] at hb
      exact hearlier hb
    · rw [hrun, hmet] at hb
      rcases List.prefix_concat_iff.mp hb with rfl | hb
      · exact ⟨as ++ [a], [], (List.append_nil _).symm, by rw [hrun, hmet]⟩
      · exact hearlier hb

/-- Someone came over a line, as a guest or as a stranger. -/
def Hosts (h : House) (id : PlayerId) (isGuest : Bool) : Prop :=
  ∃ v, h.visits id = some v ∧ v.guest.isSome = isGuest

/-- Something goes for a visitor, be it a guest or a stranger. -/
def Stands (h : House) (id : PlayerId) (P : Option Guest → Prop) : Prop :=
  ∃ v, h.visits id = some v ∧ P v.guest

/-- What goes for a guest is not undone by what the guest does, nor by what becomes of its session. -/
structure Lasting (P : Option Guest → Prop) : Prop where
  does : ∀ g gesture, P (some g) → P (some (g.does gesture))
  relined : ∀ g session, P (some g) → P (some { g with session := session })

variable {P : Option Guest → Prop}

theorem Stands.adjust (hs : h.Stands id P) (x : PlayerId) {f : Visit → Visit}
    (hf : ∀ v, P v.guest → P (f v).guest) : (h.adjust x f).Stands id P := by
  obtain ⟨v, hv, hg⟩ := hs
  by_cases hx : id = x
  · subst hx
    exact ⟨f v, by simp [House.adjust, hv], hf v hg⟩
  · exact ⟨v, by simp [House.adjust, Function.update_of_ne hx, hv], hg⟩

theorem Stands.letIn (hs : h.Stands id P) (x : PlayerId) (guest : Option Guest) :
    (h.letIn x guest).Stands id P := by
  obtain ⟨v, hv, hg⟩ := hs
  unfold House.letIn
  split
  · exact ⟨v, hv, hg⟩
  · next hn =>
    have hx : id ≠ x := by
      rintro rfl
      simp [hv] at hn
    exact ⟨v, by simpa [Function.update_of_ne hx] using hv, hg⟩

theorem Stands.meets (hs : h.Stands id P) (o : Occasion) : (h.meets seeds o).Stands id P := by
  obtain ⟨v, hv, hg⟩ := hs
  refine ⟨_, congrArg (Option.map _) hv, ?_⟩
  rw [(Visit.obeysAll_same v _).1]
  exact hg

theorem Stands.act (hs : h.Stands id P) (hp : Lasting P) (a : Act) :
    (h.act seeds a).Stands id P := by
  cases a with
  | arrives x patience avatar now => exact hs.letIn x _
  | intrudes x => exact hs.letIn x _
  | does x gesture =>
    refine hs.adjust x fun v hv => ?_
    unfold Visit.does
    split
    · exact hv
    · next g hg => exact hp.relined _ _ (hp.does g gesture (hg ▸ hv))
  | spills x bs =>
    refine hs.adjust x fun v hv => ?_
    unfold Visit.spills
    split <;> exact hv
  | rises x n =>
    refine hs.adjust x fun v hv => ?_
    unfold Visit.rises Visit.breaks
    split
    · exact hv
    · dsimp only
      split <;> exact hv
  | handles x now =>
    change (h.handles seeds x now).Stands id P
    unfold House.handles
    split
    · next n rest _ =>
      exact (hs.adjust x (f := fun v => { v with waiting := rest }) fun _ hv => hv).meets _
    · exact hs
  | checks now order => exact hs.meets _
  | falls x n =>
    refine hs.adjust x fun v hv => ?_
    unfold Visit.falls
    split
    · exact hv
    · next g hg =>
      split
      · exact hp.relined g _ (hg ▸ hv)
      · exact hv
  | breaks x =>
    refine hs.adjust x fun v hv => ?_
    unfold Visit.breaks
    split <;> exact hv

theorem Stands.run (hs : h.Stands id P) (hp : Lasting P) (seeds : Nat → UInt64) (as : List Act) :
    (h.run seeds as).Stands id P := by
  induction as using List.reverseRecOn with
  | nil => exact hs
  | append_singleton as a ih =>
    rw [run_concat]
    exact ih.act hp a

/-- A guest stays a guest, and a stranger a stranger. -/
theorem Hosts.run {isGuest : Bool} (hh : h.Hosts id isGuest) (seeds : Nat → UInt64) (as : List Act) :
    (h.run seeds as).Hosts id isGuest :=
  Stands.run (P := fun guest => guest.isSome = isGuest) hh ⟨fun _ _ hg => hg, fun _ _ hg => hg⟩ seeds as

end House
end BlockDuel
