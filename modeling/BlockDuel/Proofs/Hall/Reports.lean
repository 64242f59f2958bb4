import BlockDuel.Proofs.Hall.Briefing
import BlockDuel.Proofs.Hall.Outsiders

/-!
What goes in and out for one player, counted and compared. Nobody is in more matches than it asked
for, nobody is sent anything before its link comes, and while a match goes on each of the two is sent
all reports of the other one, in their order, and no other reports.
-/
namespace BlockDuel.Hall
open Wire

/-- How often someone asks to join. -/
def requests (ms : List Message) : Nat := ms.countP fun m => m.kind = .requestRoomJoin

/-- The messages that are to be passed on. -/
def reports (ms : List Message) : List Message := ms.filter fun m => m.kind.relayed

/-- All that was sent over a link, before its close and after. -/
def sends (cs : List Link.Call) : List Message :=
  cs.filterMap fun
    | .send m => some m
    | .shutdown | .disconnect => none

theorem requests_append (ms ms' : List Message) :
    requests (ms ++ ms') = requests ms + requests ms' :=
  List.countP_append

theorem reports_append (ms ms' : List Message) : reports (ms ++ ms') = reports ms ++ reports ms' :=
  List.filter_append ..

theorem sends_append (cs cs' : List Link.Call) : sends (cs ++ cs') = sends cs ++ sends cs' :=
  List.filterMap_append

theorem sends_map_send (ms : List Message) : sends (ms.map .send) = ms := by
  induction ms with
  | nil => rfl
  | cons m ms ih =>
    change m :: sends (ms.map .send) = m :: ms
    rw [ih]

/-- Reports are no signs of life. -/
theorem reports_line (id : PlayerId) (ds : List Deed) :
    reports (sends (line id ds)) = reports (sends (ds.filterMap (Deed.call? id))) := by
  unfold line
  generalize ds.filterMap (Deed.call? id) = cs
  induction cs with
  | nil => rfl
  | cons c cs ih =>
    cases c with
    | shutdown => exact ih
    | disconnect => exact ih
    | send m =>
      by_cases ha : audible m = true
      · have hc : audibleCall (.send m) = true := ha
        rw [List.filter_cons_of_pos hc]
        change reports ([m] ++ sends (cs.filter audibleCall)) = reports ([m] ++ sends cs)
        rw [reports_append, reports_append, ih]
      · have hc : ¬ audibleCall (.send m) = true := ha
        have hr : reports [m] = [] := by
          have hn : ¬ m.kind.relayed = true := fun hr => ha (audible_of_relayed hr)
          simp [reports, hn]
        rw [List.filter_cons_of_neg hc]
        change reports (sends (cs.filter audibleCall)) = reports ([m] ++ sends cs)
        rw [reports_append, hr, ih]
        rfl

/-- Over a link that is open, no reports come before the first match. -/
theorem Briefed.unreported {F : Pairing → List Player → Prop} {id : PlayerId} {s : State}
    {cs : List Link.Call} (h : Briefed F id s cs []) (opened : ∀ c ∈ cs, ∃ m, c = .send m)
    (there : s.stage id ≠ .out) : reports (sends cs) = [] := by
  cases h with
  | absent stage => exact absurd stage there
  | listening prelude calls =>
    rw [calls, sends_map_send]
    cases prelude <;> rfl
  | met formed first => cases first
  | missed silent heard closed =>
    rcases closed with ⟨c, hc, closes⟩ | stage
    · obtain ⟨m, rfl⟩ := opened c hc
      exact absurd rfl (closes m)
    · exact absurd stage there

/-- One whose match begins is there and is sent no reports. -/
theorem Hears.begins {id : PlayerId} {o : Occasion} {st st' : Stage} {cs : List Link.Call}
    {p : Pairing} (h : Hears id o st st' cs [p]) : st ≠ .out ∧ reports (sends cs) = [] := by
  cases h with
  | joins | isJoined => exact ⟨Stage.noConfusion, rfl⟩

/-- The link of which a deed asks something. -/
def Deed.link? : Deed → Option PlayerId
  | post id _ | finish id | cut id => some id
  | miss _ _ | opens _ _ | rules _ => none

theorem Deed.link?_of_call? {d : Deed} {id : PlayerId} {c : Link.Call} (h : d.call? id = some c) :
    d.link? = some id := by
  cases d with
  | post other m | finish other | cut other =>
    simp only [call?] at h
    split at h
    · next he => exact congrArg some he
    · cases h
  | miss | opens | rules => cases h

namespace State

variable {s s' : State} {seed : UInt64} {now : Time} {n : Notice} {o : Occasion} {ds : List Deed}
  {id x y : PlayerId}

/-- One for a player who waits for an opponent. -/
def awaits (s : State) (id : PlayerId) : Nat :=
  match s.stage id with
  | .waiting => 1
  | _ => 0

/-- A seat has to be asked for. -/
theorem Moves.matches_le (hm : Moves s seed o s' ds)
    (hh : Hears id o (s.stage id) (s'.stage id) (line id ds) (matchesOf id ds)) :
    (matchesOf id ds).length + s'.awaits id ≤ s.awaits id + requests (o.said? id).toList := by
  have hasked {roster : List Player} (h : .send (.roomPlayerList roster) ∈ line id ds) :
      requests (o.said? id).toList = 1 := by
    obtain ⟨-, m, hs, hk⟩ := (source_of_line hm h).list rfl
    simp [hs, requests, hk]
  unfold awaits
  generalize s.stage id = st at hh
  generalize s'.stage id = st' at hh
  generalize line id ds = cs at hh hasked
  generalize matchesOf id ds = ps at hh
  cases hh with
  | nothing | checked => simp
  | comes | registers | report | verdict | dismissed | concedes | lost => simp
  | waits => simp [hasked List.mem_cons_self]
  | joins => simp [hasked List.mem_cons_self]
  | isJoined => simp

/-- Only a request to join makes the room ready. -/
theorem Moves.requested (hm : Moves s seed o s' ds) (before : s.room.phase ≠ .ready)
    (after : s'.room.phase = .ready) :
    ∃ now id m, o = .notice now (.message id m) ∧ m.kind = .requestRoomJoin := by
  have hleaves {tell : Message → Deed} {x : PlayerId} {r : Room} {ds : List Deed}
      (leaves : Leaves tell x s.room r ds) : r.phase ≠ .ready := by
    generalize s.room = r' at leaves before
    cases leaves with
    | stranger out => exact before
    | alone | concedes pits => exact Phase.noConfusion
  cases hm with
  | idles | admits | registers | hearsPong | answersPing | acknowledges | relays | losesNothing
  | checks => exact absurd after before
  | seats | rules => cases after
  | pairs waiting registered kind => exact ⟨_, _, _, rfl, kind⟩
  | dismisses registered kind leaves => exact absurd after (hleaves leaves)
  | loses link leaves => exact absurd after (hleaves leaves)

theorem Leaves.asks {tell : Message → Deed} {r : Room} (leaves : Leaves tell id s.room r ds)
    (h : s.Coherent) (ht : tell = .post id ∨ tell = .miss id) :
    ds.filterMap Deed.link? ⊆ s.roll.links := by
  generalize hroom : s.room = r' at leaves
  cases leaves with
  | stranger out | alone => exact List.nil_subset _
  | concedes pits =>
    rw [← hroom] at pits
    have hx := h.member_linked pits.mem
    have hy := h.member_linked pits.symm.mem
    rcases ht with rfl | rfl <;> simp [List.filterMap_cons, Deed.link?, hx, hy]

/-- What a hall asks of a link it asks of one that is there or has just come. -/
theorem Moves.asks (hm : Moves s seed o s' ds) (h : s.Coherent) :
    ds.filterMap Deed.link? ⊆ o.newcomer?.toList ++ s.roll.links := by
  cases hm with
  | idles | hearsPong | losesNothing => exact List.nil_subset _
  | admits => simp [Deed.link?, Occasion.newcomer?]
  | registers link | answersPing link => simp [Deed.link?, link]
  | acknowledges registered => simp [Deed.link?, h.orderly.linked _ registered]
  | seats registered =>
    have hid := h.orderly.linked _ (Table.mem_ids_of_get? registered)
    simp [Deed.link?, hid]
  | pairs waiting registered =>
    have ha := h.orderly.linked _ (Table.mem_ids_of_get? waiting)
    have hid := h.orderly.linked _ (Table.mem_ids_of_get? registered)
    simp [List.filterMap_cons, Deed.link?, ha, hid]
  | relays pits | rules pits =>
    have hx := h.member_linked pits.mem
    have hy := h.member_linked pits.symm.mem
    simp [List.filterMap_cons, Deed.link?, hx, hy]
  | dismisses registered kind leaves =>
    rw [List.filterMap_append]
    refine List.append_subset.mpr ⟨leaves.asks h (.inl rfl), ?_⟩
    simp [Deed.link?, h.orderly.linked _ registered]
  | loses link leaves => exact leaves.asks h (.inr rfl)
  | checks =>
    intro id hid
    obtain ⟨d, hd, hlink⟩ := List.mem_filterMap.mp hid
    obtain ⟨x, rfl | ⟨hx, rfl⟩⟩ := checkLiveness_deeds hd
    · by_cases hx : x ∈ s.roll.links
      · rw [send_linked hx] at hlink
        cases hlink
        exact hx
      · rw [send_unlinked hx] at hlink
        cases hlink
    · cases hlink
      exact hx

theorem heed_reports (hn : n.id = x) (hxy : x ≠ y) :
    reports (sends ((s.heed now y n).2.filterMap (Deed.call? y))) =
        reports ((Occasion.notice now n).said? x).toList ∧
      reports (sends ((s.heed now y n).2.filterMap (Deed.call? x))) = [] := by
  subst hn
  cases n with
  | lost id => exact ⟨rfl, rfl⟩
  | connected id =>
    have hid : id ≠ y := hxy
    simp [heed, Deed.call?, hid, sends, reports, Occasion.said?, Notice.id, Message.accepted,
      Message.bare, Kind.relayed]
  | message id m =>
    have hid : id ≠ y := hxy
    simp only [heed]
    cases hk : m.kind <;>
      simp [Deed.call?, hid, hid.symm, sends, reports, Occasion.said?, Notice.id, hk, Kind.relayed,
        Message.serverPong, Message.roomJoinAccepted, Message.bare]

theorem checkLiveness_reports (order : List PlayerId) :
    reports (sends ((s.checkLiveness now order).2.filterMap (Deed.call? x))) = [] := by
  unfold reports
  rw [List.filter_eq_nil_iff]
  intro m hm
  obtain ⟨c, hc, hcm⟩ := List.mem_filterMap.mp hm
  obtain ⟨d, hd, hdc⟩ := List.mem_filterMap.mp hc
  obtain ⟨id, rfl | ⟨-, rfl⟩⟩ := checkLiveness_deeds hd
  · unfold send at hdc
    split at hdc
    · simp only [Deed.call?] at hdc
      split at hdc
      · cases hdc
        cases hcm
        exact Bool.false_ne_true
      · cases hdc
    · cases hdc
  · simp only [Deed.call?] at hdc
    split at hdc
    · cases hdc
      cases hcm
    · cases hdc

end State

namespace Course

variable {seeds : Nat → UInt64} {interval patience : Nat} {start : Time} {os : List Occasion}
  {id a b : PlayerId} {c : Course}

theorem fresh_before {os' : List Occasion}
    (fresh : ((os ++ os').filterMap Occasion.newcomer?).Nodup) :
    (os.filterMap Occasion.newcomer?).Nodup := by
  rw [List.filterMap_append, List.nodup_append] at fresh
  exact fresh.1

/-- A link that comes was not there. -/
theorem newcomer_unlinked {o : Occasion} (fresh : ((os ++ [o]).filterMap Occasion.newcomer?).Nodup)
    {now : Time} (ho : o = .notice now (.connected id)) :
    id ∉ ((opened interval patience start).run seeds os).hall.roll.links := by
  rw [List.filterMap_append, List.nodup_append] at fresh
  refine ((followed_run os fresh.1).before ?_).1
  intro hmem
  exact fresh.2.2 id hmem id (by simp [ho, Occasion.newcomer?]) rfl

/-- For each match there was a request of either member, and for a player who waits one more. -/
theorem matches_le_requests (fresh : (os.filterMap Occasion.newcomer?).Nodup) (id : PlayerId) :
    let c := (opened interval patience start).run seeds os
    (matchesOf id c.deeds).length + c.hall.awaits id ≤
      requests (os.filterMap (Occasion.said? id)) := by
  intro c
  induction os using List.reverseRecOn with
  | nil => exact Nat.le_refl 0
  | append_singleton os o ih =>
    have hos : (os.filterMap Occasion.newcomer?).Nodup := fresh_before fresh
    let b := (opened interval patience start).run seeds os
    have hb : b.hall.Coherent := coherent_run os
    have hm := State.meet_moves hb (seeds b.made) o
    have hn : c = b.next seeds o := run_concat os o
    have hnew : ∀ now, o = .notice now (.connected id) → id ∉ b.hall.roll.links :=
      fun now ho => newcomer_unlinked fresh ho
    have hstep := hm.matches_le (hm.hears hb id hnew)
    have hsaid : [o].filterMap (Occasion.said? id) = (o.said? id).toList := by
      cases h : o.said? id <;> simp [h]
    have hle : (matchesOf id b.deeds).length + b.hall.awaits id ≤
        requests (os.filterMap (Occasion.said? id)) := ih hos
    rw [hn, next_eq, List.filterMap_append, requests_append, hsaid]
    simp only [matchesOf_append, List.length_append]
    omega

/-- All deeds stay on record. -/
theorem run_deeds_isPrefix (seeds : Nat → UInt64) (c : Course) (os : List Occasion) :
    c.deeds <+: (c.run seeds os).deeds := by
  induction os using List.reverseRecOn with
  | nil => exact List.prefix_rfl
  | append_singleton os o ih =>
    rw [run_concat, next_eq]
    exact ih.trans (List.prefix_append _ _)

theorem matches_run_isPrefix (seeds : Nat → UInt64) (id : PlayerId) (c : Course)
    (os : List Occasion) : matchesOf id c.deeds <+: matchesOf id (c.run seeds os).deeds :=
  ((run_deeds_isPrefix seeds c os).filterMap _).filter _

theorem Forms.matches {o : Occasion} {p : Pairing} (h : c.Forms seeds o p) (hid : id ∈ p.members) :
    matchesOf id (c.next seeds o).deeds = matchesOf id c.deeds ++ [p] := by
  have hown : [p].filter (fun q => id ∈ q.members) = [p] :=
    List.filter_cons_of_pos (decide_eq_true hid)
  change (c.next seeds o).pairings.filter _ = c.pairings.filter _ ++ [p]
  rw [h.pairings, List.filter_append, hown]

/-- Two matches of one player count twice. -/
theorem two_le_matches (after : List Occasion) {before between : List Occasion} {o o' : Occasion}
    {p p' : Pairing} (forms : (c.run seeds before).Forms seeds o p) (hid : id ∈ p.members)
    (forms' : (c.run seeds (before ++ o :: between)).Forms seeds o' p') (hid' : id ∈ p'.members) :
    2 ≤ (matchesOf id (c.run seeds ((before ++ o :: between) ++ o' :: after)).deeds).length := by
  have hrun (os os' : List Occasion) (o : Occasion) :
      c.run seeds (os ++ o :: os') = ((c.run seeds os).next seeds o).run seeds os' := by
    simp [run]
  have hfirst := (matches_run_isPrefix seeds id ((c.run seeds before).next seeds o)
    between).length_le
  have hboth := (matches_run_isPrefix seeds id ((c.run seeds (before ++ o :: between)).next seeds o')
    after).length_le
  rw [← hrun, forms.matches hid, List.length_append, List.length_singleton] at hfirst
  rw [← hrun, forms'.matches hid', List.length_append, List.length_singleton] at hboth
  omega

/-- A player who is in one match only has seen one match begin. -/
theorem forms_once {before before' after after' : List Occasion} {o o' : Occasion} {p p' : Pairing}
    (same : before ++ o :: after = before' ++ o' :: after')
    (once : (matchesOf id (c.run seeds (before ++ o :: after)).deeds).length ≤ 1)
    (forms : (c.run seeds before).Forms seeds o p) (hid : id ∈ p.members)
    (forms' : (c.run seeds before').Forms seeds o' p') (hid' : id ∈ p'.members) :
    before = before' ∧ o = o' := by
  rcases List.append_eq_append_iff.mp same with ⟨between, rfl, hrest⟩ | ⟨between, rfl, hrest⟩
  · cases between with
    | nil =>
      cases hrest
      exact ⟨(List.append_nil _).symm, rfl⟩
    | cons x between =>
      cases hrest
      have htwo := two_le_matches after' forms hid forms' hid'
      rw [same] at once
      omega
  · cases between with
    | nil =>
      cases hrest
      exact ⟨List.append_nil _, rfl⟩
    | cons x between =>
      cases hrest
      have htwo := two_le_matches after forms' hid' forms hid
      omega

/-- Nothing is asked of a link before it comes. -/
theorem calls_of_nobody (absent : id ∉ os.filterMap Occasion.newcomer?) :
    ((opened interval patience start).run seeds os).deeds.filterMap (Deed.call? id) = [] := by
  suffices h : id ∉ ((opened interval patience start).run seeds os).hall.roll.links ∧
      ((opened interval patience start).run seeds os).deeds.filterMap (Deed.call? id) = [] from h.2
  revert absent
  refine run_induction (P := fun os c => id ∉ os.filterMap Occasion.newcomer? →
    id ∉ c.hall.roll.links ∧ c.deeds.filterMap (Deed.call? id) = []) ?_ ?_ os
  · intro _
    exact ⟨List.not_mem_nil, rfl⟩
  · intro os c o s' ds ih hc hm absent
    rw [List.filterMap_append, List.mem_append, not_or] at absent
    obtain ⟨hlink, hcalls⟩ := ih absent.1
    have hnew : ¬ ∃ now, o = .notice now (.connected id) := by
      rintro ⟨now, rfl⟩
      exact absent.2 (by simp [Occasion.newcomer?])
    constructor
    · rw [hm.mem_links, not_or]
      exact ⟨hnew, fun hl => hlink hl.1⟩
    · rw [List.filterMap_append, hcalls, List.nil_append, List.filterMap_eq_nil_iff]
      intro d hd
      cases hcall : d.call? id with
      | none => rfl
      | some call =>
        have hasked := hm.asks hc (List.mem_filterMap.mpr ⟨d, hd, Deed.link?_of_call? hcall⟩)
        rcases List.mem_append.mp hasked with hl | hl
        · exact absurd (newcomer?_eq_some.mp (Option.mem_toList.mp hl)) hnew
        · exact absurd hl hlink

/-- One occasion of a match: the room stays as it is, and `b` is sent what `a` reports. -/
theorem next_reports (hc : c.hall.Coherent) (pits : c.hall.room.Pits a b) {o : Occasion}
    (ready : (c.next seeds o).hall.room.phase = .ready) :
    (c.next seeds o).hall.room = c.hall.room ∧
      reports (sends ((c.next seeds o).deeds.filterMap (Deed.call? b))) =
        reports (sends (c.deeds.filterMap (Deed.call? b))) ++ reports (o.said? a).toList := by
  rw [next_eq] at ready ⊢
  dsimp only at ready ⊢
  rw [List.filterMap_append, sends_append, reports_append]
  cases o with
  | check now order =>
    refine ⟨rfl, congrArg _ ?_⟩
    exact State.checkLiveness_reports order
  | notice now n =>
    by_cases hna : n.id = a
    · subst hna
      have hstays := State.not_givesUp_of_ready hc pits ready
      rw [State.meet_member hc pits hstays]
      exact ⟨State.heed_room, congrArg _ (State.heed_reports rfl pits.ne).1⟩
    have hsaid : (Occasion.notice now n).said? a = none := by
      cases n with
      | message id m => exact if_neg hna
      | connected id | lost id => rfl
    rw [hsaid]
    by_cases hnb : n.id = b
    · subst hnb
      have hstays := State.not_givesUp_of_ready hc pits.symm ready
      rw [State.meet_member hc pits.symm hstays]
      exact ⟨State.heed_room, congrArg _ (State.heed_reports rfl pits.symm.ne).2⟩
    · have hm := State.meet_moves hc (seeds c.made) (.notice now n)
      obtain ⟨hroom, -, -, hplayers⟩ := hm.foreign pits ⟨hna, hnb⟩
      rw [(hplayers b (.inr rfl)).calls]
      exact ⟨hroom, rfl⟩

/-- While a match goes on, each of the two is sent the reports of the other one. -/
theorem reports_during (hc : c.hall.Coherent) (pits : c.hall.room.Pits a b)
    (lasts : c.Lasts seeds os) :
    (c.run seeds os).hall.room = c.hall.room ∧
      reports (sends ((c.run seeds os).deeds.filterMap (Deed.call? b))) =
        reports (sends (c.deeds.filterMap (Deed.call? b))) ++
          reports (os.filterMap (Occasion.said? a)) := by
  induction os generalizing c with
  | nil =>
    refine ⟨rfl, ?_⟩
    change _ = _ ++ []
    rw [List.append_nil]
    rfl
  | cons o os ih =>
    obtain ⟨hroom, hstep⟩ := next_reports hc pits lasts.2.ready
    obtain ⟨hroom', hrest⟩ := ih (next_coherent hc o) (hroom ▸ pits) lasts.2
    have hsaid : (o :: os).filterMap (Occasion.said? a) =
        (o.said? a).toList ++ os.filterMap (Occasion.said? a) := by
      cases h : o.said? a <;> simp [h]
    refine ⟨hroom'.trans hroom, ?_⟩
    rw [hsaid, reports_append, ← List.append_assoc, ← hstep]
    exact hrest

/-- When a match begins, its members are there and are sent no reports, and nobody says one. -/
theorem Forms.unreported {o : Occasion} {p : Pairing} (h : c.Forms seeds o p)
    (hc : c.hall.Coherent) (fresh : ∀ now, o = .notice now (.connected id) → id ∉ c.hall.roll.links)
    (hid : id ∈ p.members) :
    c.hall.stage id ≠ .out ∧
      reports (sends ((c.next seeds o).deeds.filterMap (Deed.call? id))) =
        reports (sends (c.deeds.filterMap (Deed.call? id))) ∧
      ∀ x, reports (o.said? x).toList = [] := by
  have hm := State.meet_moves hc (seeds c.made) o
  have hh := hm.hears hc id fresh
  have hmatches := h.matches hid
  have hafter : (c.hall.meet (seeds c.made) o).1.room.phase = .ready := by
    have hroom := h.after
    rw [next_eq] at hroom
    exact congrArg Room.phase hroom
  rw [next_eq] at hmatches ⊢
  dsimp only at hmatches ⊢
  rw [matchesOf_append] at hmatches
  rw [List.append_cancel_left hmatches] at hh
  obtain ⟨hthere, hreports⟩ := hh.begins
  rw [reports_line] at hreports
  refine ⟨hthere, ?_, ?_⟩
  · rw [List.filterMap_append, sends_append, reports_append, hreports, List.append_nil]
  · intro x
    obtain ⟨now, y, m, rfl, hk⟩ := hm.requested h.before hafter
    change reports (if y = x then some m else none).toList = []
    split
    · simp [reports, hk, Kind.relayed]
    · rfl

/-- In its first match a player hears no verdict. -/
theorem no_verdict (fresh : (os.filterMap Occasion.newcomer?).Nodup)
    (hc : c = (opened interval patience start).run seeds os) {p : Pairing}
    (plays : c.hall.stage id = .playing p) (once : (matchesOf id c.deeds).length ≤ 1)
    (listens : ∀ call ∈ c.deeds.filterMap (Deed.call? id), ∃ m, call = .send m) {m : Message}
    (hm : .send m ∈ c.deeds.filterMap (Deed.call? id)) : m.kind ≠ .gameOver := by
  intro hk
  have haudible : audible m = true := by simp [audible, hk]
  have hline : .send m ∈ line id c.deeds := List.mem_filter.mpr ⟨hm, haudible⟩
  have hspoke : Spoke id (c.hall.stage id) (matchesOf id c.deeds) (line id c.deeds) := by
    rw [hc]
    exact (followed_run os fresh).spoke
  rw [plays] at hspoke
  cases hspoke with
  | shut mem closes =>
    obtain ⟨m', rfl⟩ := listens _ (List.mem_of_mem_filter mem)
    exact closes m' rfl
  | ongoing sent told =>
    rw [sent] at hline
    obtain ⟨m', hlog, heq⟩ := List.mem_map.mp hline
    cases heq
    generalize matchesOf id c.deeds = ps at told once
    cases told with
    | @playing es p roster newcomer play member relayed =>
      have hes : es = [] := by
        simpa using once
      subst hes
      simp only [word, beginning, List.flatMap_nil, List.mem_append, List.mem_cons, List.not_mem_nil,
        or_false] at hlog
      rcases hlog with (rfl | rfl) | (rfl | hnewcomer) | rfl | rfl | hplay
      · cases hk
      · cases hk
      · cases hk
      · split at hnewcomer
        · rw [List.mem_singleton.mp hnewcomer] at hk
          cases hk
        · cases hnewcomer
      · cases hk
      · cases hk
      · have hr := relayed m hplay
        rw [hk] at hr
        cases hr

/-- While the first match of `b` goes on, `b` is sent the reports of `a` and no others. -/
theorem reports_of_match {before after : List Occasion} {o : Occasion} {p : Pairing}
    (hc : c = (opened interval patience start).run seeds before)
    (fresh : ((before ++ o :: after).filterMap Occasion.newcomer?).Nodup)
    (forms : c.Forms seeds o p) (pits : (c.next seeds o).hall.room.Pits a b)
    (lasts : (c.next seeds o).Lasts seeds after) (first : matchesOf b c.deeds = [])
    (listens : ∀ call ∈ ((c.next seeds o).run seeds after).deeds.filterMap (Deed.call? b),
      ∃ m, call = .send m) :
    ((c.next seeds o).run seeds after).hall.room = (c.next seeds o).hall.room ∧
      reports (sends (((c.next seeds o).run seeds after).deeds.filterMap (Deed.call? b))) =
        reports (after.filterMap (Occasion.said? a)) := by
  have hcoherent : c.hall.Coherent := by
    rw [hc]
    exact coherent_run before
  have hfresh : ((before ++ [o]).filterMap Occasion.newcomer?).Nodup := by
    rw [List.append_cons] at fresh
    exact fresh_before fresh
  have hnew : ∀ now, o = .notice now (.connected b) → b ∉ c.hall.roll.links := by
    rw [hc]
    exact fun now ho => newcomer_unlinked hfresh ho
  have hb : b ∈ p.members := by
    have hmem := pits.symm.mem
    rw [forms.after] at hmem
    exact hmem
  obtain ⟨hthere, hforms, -⟩ := forms.unreported hcoherent hnew hb
  obtain ⟨hroom, hreports⟩ := reports_during (next_coherent hcoherent o) pits lasts
  have hbriefed : Briefed ((opened interval patience start).Formed seeds before) b c.hall
      (line b c.deeds) (matchesOf b c.deeds) := by
    rw [hc]
    exact briefed_run before (fresh_before hfresh) b
  rw [first] at hbriefed
  have hquiet : reports (sends (c.deeds.filterMap (Deed.call? b))) = [] := by
    rw [← reports_line]
    refine hbriefed.unreported ?_ hthere
    intro call hcall
    have hmem : call ∈ c.deeds.filterMap (Deed.call? b) := List.mem_of_mem_filter hcall
    have hdeeds : c.deeds <+: ((c.next seeds o).run seeds after).deeds :=
      (run_deeds_isPrefix seeds c [o]).trans (run_deeds_isPrefix seeds _ after)
    exact listens call ((hdeeds.filterMap _).subset hmem)
  refine ⟨hroom, ?_⟩
  rw [hreports, hforms, hquiet, List.nil_append]

end Course
end BlockDuel.Hall
