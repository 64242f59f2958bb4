import BlockDuel.Proofs.Hall.Seeds
import BlockDuel.Proofs.Hall.Transcript
import BlockDuel.Proofs.Hall.Verdicts

/-!
What each player hears over a whole course. Every move of a hall is, to every single player, one of the
few things that can follow where the player stands; so all that a link queues is in the language of
transcripts, however its reader and its writer come in between.
-/
namespace BlockDuel.Hall
open Wire

/-- What a deed asks of the link `id`. -/
def Deed.call? (id : PlayerId) : Deed → Option Link.Call
  | post receiver m => if receiver = id then some (.send m) else none
  | finish other => if other = id then some .shutdown else none
  | cut other => if other = id then some .disconnect else none
  | miss _ _ | opens _ _ | rules _ => none

def audibleCall : Link.Call → Bool
  | .send m => audible m
  | _ => true

/-- The calls on the link `id`, without messages that are heard at any time. -/
def line (id : PlayerId) (ds : List Deed) : List Link.Call :=
  (ds.filterMap (Deed.call? id)).filter audibleCall

/-- The matches of `id` that begin. -/
def matchesOf (id : PlayerId) (ds : List Deed) : List Pairing :=
  (ds.filterMap Deed.pairing?).filter fun p => id ∈ p.members

theorem spoken_filter (cs : List Link.Call) :
    Link.spoken (cs.filter audibleCall) = (Link.spoken cs).filter audible := by
  induction cs with
  | nil => rfl
  | cons c cs ih =>
    cases c with
    | shutdown => rfl
    | disconnect => rfl
    | send m =>
      by_cases ha : audible m = true
      · have hc : audibleCall (.send m) = true := ha
        rw [List.filter_cons_of_pos hc]
        change m :: Link.spoken (cs.filter audibleCall) = (m :: Link.spoken cs).filter audible
        rw [ih, List.filter_cons_of_pos ha]
      · have hc : ¬ audibleCall (.send m) = true := ha
        rw [List.filter_cons_of_neg hc]
        change Link.spoken (cs.filter audibleCall) = (m :: Link.spoken cs).filter audible
        rw [ih, List.filter_cons_of_neg ha]

section

variable {id other : PlayerId} {m : Message} {ds ds' : List Deed} {p : Pairing}

theorem line_append : line id (ds ++ ds') = line id ds ++ line id ds' := by
  simp [line]

theorem matchesOf_append : matchesOf id (ds ++ ds') = matchesOf id ds ++ matchesOf id ds' := by
  simp [matchesOf]

theorem matchesOf_finish : matchesOf id [.finish other] = [] := rfl

theorem matchesOf_opens {members : List PlayerId} {seed : UInt64} :
    matchesOf id (.opens members seed :: ds) =
      if id ∈ members then ⟨members, seed⟩ :: matchesOf id ds else matchesOf id ds := by
  have hp : (Deed.opens members seed).pairing? = some ⟨members, seed⟩ := rfl
  simp only [matchesOf, List.filterMap_cons, hp, List.filter_cons, decide_eq_true_eq]

theorem mem_members_of_matchesOf (h : p ∈ matchesOf id ds) : id ∈ p.members := by
  simpa using (List.mem_filter.mp h).2

theorem line_self (ha : audible m = true) (ds : List Deed) :
    line id (.post id m :: ds) = .send m :: line id ds := by
  simp [line, Deed.call?, audibleCall, ha]

theorem line_inaudible (ha : audible m = false) (ds : List Deed) :
    line id (.post other m :: ds) = line id ds := by
  by_cases h : other = id <;> simp [line, Deed.call?, audibleCall, h, ha]

theorem line_other (h : other ≠ id) (ds : List Deed) :
    line id (.post other m :: ds) = line id ds := by
  simp [line, Deed.call?, h]

theorem line_miss : line id (.miss other m :: ds) = line id ds := rfl

theorem line_rules {v : Verdict} : line id (.rules v :: ds) = line id ds := rfl

theorem line_opens {members : List PlayerId} {seed : UInt64} :
    line id (.opens members seed :: ds) = line id ds := rfl

theorem line_finish : line id [.finish id] = [.shutdown] := by
  simp [line, Deed.call?, audibleCall]

theorem line_finish_other (h : other ≠ id) : line id [.finish other] = [] := by
  simp [line, Deed.call?, h]

end

namespace State

/-- Where a player stands with the hall. -/
def stage (s : State) (id : PlayerId) : Stage :=
  if id ∈ s.room.members then
    match s.room.running? with
    | some p => .playing p
    | none => .waiting
  else if id ∈ s.roll.registrations.ids then .idle
  else if id ∈ s.roll.links then .admitted
  else .out

variable {s s' : State} {seed : UInt64} {now : Time} {o : Occasion} {ds : List Deed}
  {id : PlayerId} {p : Pairing}

theorem stage_playing (hm : id ∈ s.room.members) (hp : s.room.running? = some p) :
    s.stage id = .playing p := by
  simp [stage, hm, hp]

theorem stage_waiting (hr : s.room = ⟨[id], .waitingForSecond, none⟩) : s.stage id = .waiting := by
  simp [stage, hr, Room.running?]

theorem stage_idle (hr : id ∈ s.roll.registrations.ids) (hm : id ∉ s.room.members) :
    s.stage id = .idle := by
  simp [stage, hm, hr]

theorem stage_admitted (h : s.Coherent) (hl : id ∈ s.roll.links)
    (hr : id ∉ s.roll.registrations.ids) : s.stage id = .admitted := by
  have hm : id ∉ s.room.members := fun hm => hr (h.seated id hm)
  simp [stage, hm, hr, hl]

theorem stage_out (h : s.Coherent) (hl : id ∉ s.roll.links) : s.stage id = .out := by
  have hr : id ∉ s.roll.registrations.ids := fun hr => hl (h.orderly.linked id hr)
  have hm : id ∉ s.room.members := fun hm => hr (h.seated id hm)
  simp [stage, hm, hr, hl]

theorem stage_linked (hl : id ∈ s.roll.links) : s.stage id ≠ .out := by
  unfold stage
  split
  · split <;> exact Stage.noConfusion
  split <;> exact Stage.noConfusion

/-- A player outside the room stands where the roll says. -/
theorem stage_outside (hm : id ∉ s.room.members) (hm' : id ∉ s'.room.members)
    (hr : id ∈ s'.roll.registrations.ids ↔ id ∈ s.roll.registrations.ids)
    (hl : id ∈ s'.roll.links ↔ id ∈ s.roll.links) : s'.stage id = s.stage id := by
  simp [stage, hm, hm', hr, hl]

theorem stage_same (hroom : s'.room = s.room)
    (hr : id ∈ s'.roll.registrations.ids ↔ id ∈ s.roll.registrations.ids)
    (hl : id ∈ s'.roll.links ↔ id ∈ s.roll.links) : s'.stage id = s.stage id := by
  simp [stage, hroom, hr, hl]

theorem checkLiveness_hears (order : List PlayerId) :
    Hears id o (s.stage id) (s.stage id) (line id (s.checkLiveness now order).2)
      (matchesOf id (s.checkLiveness now order).2) := by
  have hp : matchesOf id (s.checkLiveness now order).2 = [] := by
    unfold matchesOf
    rw [checkLiveness_opens_nothing]
    rfl
  have hcuts : ∀ c ∈ line id (s.checkLiveness now order).2, id ∈ s.roll.links ∧ c = .disconnect := by
    intro c hc
    obtain ⟨hc, ha⟩ := List.mem_filter.mp hc
    obtain ⟨d, hd, hdc⟩ := List.mem_filterMap.mp hc
    obtain ⟨other, rfl | ⟨hl, rfl⟩⟩ := checkLiveness_deeds hd
    · unfold send at hdc
      split at hdc
      · simp only [Deed.call?] at hdc
        split at hdc
        · cases hdc
          exact absurd ha Bool.false_ne_true
        · cases hdc
      · cases hdc
    · simp only [Deed.call?] at hdc
      split at hdc
      · next he =>
        cases hdc
        rw [← he]
        exact ⟨hl, rfl⟩
      · cases hdc
  rw [hp]
  by_cases hl : id ∈ s.roll.links
  · exact .checked (stage_linked hl) fun c hc => (hcuts c hc).2
  · have hn : line id (s.checkLiveness now order).2 = [] :=
      List.eq_nil_iff_forall_not_mem.mpr fun c hc => hl (hcuts c hc).1
    rw [hn]
    exact .nothing

/-- When another player leaves, the one who was playing against that player hears the verdict and of
the leaving; nobody else hears anything. -/
theorem Leaves.hears {tell : Message → Deed} {other : PlayerId} {r : Room} (h : s.Coherent)
    (leaves : Leaves tell other s.room r ds) (s' : State) (ht : tell = .post other ∨ tell = .miss other)
    (hne : other ≠ id) (hroom : s'.room = r)
    (hr : id ∈ s'.roll.registrations.ids ↔ id ∈ s.roll.registrations.ids)
    (hl : id ∈ s'.roll.links ↔ id ∈ s.roll.links) :
    Hears id o (s.stage id) (s'.stage id) (line id ds) (matchesOf id ds) := by
  generalize hroom' : s.room = r' at leaves
  cases leaves with
  | stranger out =>
    rw [← hroom'] at hroom
    exact .still (stage_same hroom hr hl)
  | alone =>
    have hm : id ∉ s.room.members := by simp [hroom', Ne.symm hne]
    have hm' : id ∉ s'.room.members := by simp [hroom, Room.fresh]
    exact .still (stage_outside hm hm' hr hl)
  | @concedes r y pits =>
    subst r'
    have hm' : id ∉ s'.room.members := by simp [hroom, Room.fresh]
    have hmatches : matchesOf id [.rules ⟨y, other⟩, .post y (.gameOver ⟨y, other⟩),
        tell (.gameOver ⟨y, other⟩), .post y (.roomPlayerLeft other)] = [] := by
      rcases ht with rfl | rfl <;> rfl
    have htell (ds : List Deed) : line id (tell (.gameOver ⟨y, other⟩) :: ds) = line id ds := by
      rcases ht with rfl | rfl
      · exact line_other hne ds
      · exact line_miss
    rw [hmatches, line_rules]
    by_cases hy : y = id
    · subst y
      obtain ⟨seed, hrun⟩ := pits.running? h.room
      rw [line_self rfl, htell, line_self rfl]
      exact (Hears.verdict (v := ⟨id, other⟩) (some other) (.inl rfl)).between
        (stage_playing pits.symm.mem hrun) (stage_idle (hr.mpr (h.seated id pits.symm.mem)) hm')
    · rw [line_other hy, htell, line_other hy]
      have hm : id ∉ s.room.members := by
        rw [pits.mem_iff]
        rintro (rfl | rfl)
        · exact hne rfl
        · exact hy rfl
      exact .still (stage_outside hm hm' hr hl)

/-- The one who leaves the hall is told the verdict, if there is one, before the link closes. -/
theorem Leaves.hearsOwn {r : Room} (h : s.Coherent) (hl : id ∈ s.roll.links)
    (leaves : Leaves (.post id) id s.room r ds) :
    Hears id o (s.stage id) .admitted (line id ds ++ [.shutdown]) (matchesOf id ds) := by
  generalize hroom : s.room = r' at leaves
  cases leaves with
  | stranger out => exact .dismissed (stage_linked hl)
  | alone => exact .dismissed (stage_linked hl)
  | @concedes r y pits =>
    subst r'
    obtain ⟨seed, hrun⟩ := pits.running? h.room
    rw [line_rules, line_other pits.ne.symm, line_self rfl, line_other pits.ne.symm]
    exact (Hears.concedes (v := ⟨y, id⟩) (.inr rfl)).between (stage_playing pits.mem hrun) rfl

/-- A lost player hears nothing of it. -/
theorem Leaves.unheard {r r' : Room} (leaves : Leaves (.miss id) id r r' ds) :
    line id ds = [] ∧ matchesOf id ds = [] := by
  cases leaves with
  | stranger out => exact ⟨rfl, rfl⟩
  | alone => exact ⟨rfl, rfl⟩
  | concedes pits =>
    refine ⟨?_, rfl⟩
    rw [line_rules, line_other pits.ne.symm, line_miss, line_other pits.ne.symm]
    rfl

/-- A match begins for its two members. The one who was waiting hears who came, and the other one,
with the answer to the request, who is there. -/
theorem pairs_hears {a b : PlayerId} {ga g : Registration}
    (registered : b ∈ s.roll.registrations.ids) (ne : a ≠ b)
    (room : s.room = ⟨[a], .waitingForSecond, none⟩) :
    let ds : List Deed := [.post b .roomJoinAccepted, .post b (.roomPlayerList [ga.player, g.player]),
      .post a (.roomPlayerJoined g.player), .opens [a, b] seed, .post a (.bagSeed seed),
      .post a .allPlayersReady, .post b (.bagSeed seed), .post b .allPlayersReady]
    Hears id o (s.stage id) (stage { s with room := ⟨[a, b], .ready, some seed⟩ } id)
      (line id ds) (matchesOf id ds) := by
  intro ds
  have hmatches : matchesOf id ds = if id ∈ [a, b] then [⟨[a, b], seed⟩] else [] := matchesOf_opens
  rw [hmatches]
  unfold ds
  rw [line_inaudible rfl]
  by_cases hb : b = id
  · subst b
    have hout : id ∉ s.room.members := by simp [room, ne.symm]
    have hin : id ∈ [a, id] := by simp
    rw [line_self rfl, line_other ne, line_opens, line_other ne, line_other ne, line_self rfl,
      line_self rfl, if_pos hin]
    exact (Hears.joins (p := ⟨[a, id], seed⟩) hin (by simpa using ne)).between
      (stage_idle registered hout) (stage_playing hin rfl)
  rw [line_other hb]
  by_cases ha : a = id
  · subst a
    have hin : id ∈ [id, b] := by simp
    rw [line_self rfl, line_opens, line_self rfl, line_self rfl, line_other hb, line_other hb,
      if_pos hin]
    exact (Hears.isJoined (p := ⟨[id, b], seed⟩) hin rfl).between (stage_waiting room)
      (stage_playing hin rfl)
  · have hout : id ∉ s.room.members := by simp [room, Ne.symm ha]
    have hout' : id ∉ [a, b] := by simp [Ne.symm ha, Ne.symm hb]
    rw [line_other ha, line_opens, line_other ha, line_other ha, line_other hb, line_other hb,
      if_neg hout']
    exact .still (stage_outside hout hout' Iff.rfl Iff.rfl)

/-- Both members hear the verdict, and then they are free for the next match. -/
theorem rules_hears {x y : PlayerId} (h : s.Coherent) (pits : s.room.Pits x y) :
    let ds : List Deed :=
      [.rules ⟨y, x⟩, .post y (.gameOver ⟨y, x⟩), .post x (.gameOver ⟨y, x⟩)]
    Hears id o (s.stage id) (stage { s with room := .fresh } id) (line id ds) (matchesOf id ds) := by
  intro ds
  have hout : id ∉ Room.fresh.members := List.not_mem_nil
  have hidle (hm : id ∈ s.room.members) : stage { s with room := .fresh } id = .idle :=
    stage_idle (h.seated id hm) hout
  obtain ⟨seed, hrun⟩ := pits.running? h.room
  have hmatches : matchesOf id ds = [] := rfl
  rw [hmatches]
  unfold ds
  rw [line_rules]
  by_cases hy : y = id
  · subst y
    have hm := pits.symm.mem
    rw [line_self rfl, line_other pits.ne]
    exact (Hears.verdict (v := ⟨id, x⟩) none (.inl rfl)).between (stage_playing hm hrun) (hidle hm)
  rw [line_other hy]
  by_cases hx : x = id
  · subst x
    have hm := pits.mem
    rw [line_self rfl]
    exact (Hears.verdict (v := ⟨y, id⟩) none (.inr rfl)).between (stage_playing hm hrun) (hidle hm)
  · rw [line_other hx]
    have hm : id ∉ s.room.members := by
      rw [pits.mem_iff]
      rintro (rfl | rfl)
      · exact hx rfl
      · exact hy rfl
    exact .still (stage_outside hm hout Iff.rfl Iff.rfl)

theorem Moves.hears (hm : Moves s seed o s' ds) (h : s.Coherent) (id : PlayerId)
    (fresh : ∀ now, o = .notice now (.connected id) → id ∉ s.roll.links) :
    Hears id o (s.stage id) (s'.stage id) (line id ds) (matchesOf id ds) := by
  have h' : s'.Coherent := hm.coherent h
  cases hm with
  | idles => exact .nothing
  | @admits now other =>
    by_cases he : other = id
    · subst other
      have hl := fresh now rfl
      have hr : id ∉ s.roll.registrations.ids := fun hr => hl (h.orderly.linked id hr)
      rw [line_self rfl]
      refine (Hears.comes rfl).between (stage_out h hl) (stage_admitted h' ?_ ?_)
      · exact Roll.mem_links_insert.mpr (.inr rfl)
      · rw [Roll.registrations_insert]
        exact hr
    · rw [line_other he]
      refine .still (stage_same rfl ?_ ?_)
      · rw [Roll.registrations_insert]
      · rw [Roll.mem_links_insert]
        exact or_iff_left (Ne.symm he)
  | @registers now other m p link new kind player =>
    by_cases he : other = id
    · subst other
      have hm : id ∉ s.room.members := fun hm => new (h.seated id hm)
      rw [line_self rfl]
      exact Hears.registers.between (stage_admitted h link new)
        (stage_idle ((Table.mem_ids_put_new new).mpr (.inr rfl)) hm)
    · rw [line_other he]
      refine .still (stage_same rfl ?_ Iff.rfl)
      rw [Table.mem_ids_put_new new]
      exact or_iff_left (Ne.symm he)
  | hearsPong =>
    refine .still (stage_same rfl ?_ Iff.rfl)
    simp [Roll.adjust]
  | answersPing =>
    rw [line_inaudible rfl]
    exact .nothing
  | acknowledges =>
    rw [line_inaudible rfl]
    exact .nothing
  | @seats now other m g registered kind room =>
    rw [line_inaudible rfl]
    have hout : id ∉ s.room.members := by simp [room, Room.fresh]
    by_cases he : other = id
    · subst other
      rw [line_self rfl]
      exact Hears.waits.between (stage_idle (Table.mem_ids_of_get? registered) hout)
        (stage_waiting rfl)
    · rw [line_other he]
      refine .still (stage_outside hout ?_ Iff.rfl Iff.rfl)
      simp [Ne.symm he]
  | pairs waiting registered kind ne room =>
    exact pairs_hears (Table.mem_ids_of_get? registered) ne room
  | @relays now x y m pits kind =>
    by_cases he : y = id
    · subst y
      obtain ⟨seed, hrun⟩ := pits.running? h.room
      have hst := stage_playing pits.symm.mem hrun
      rw [line_self (audible_of_relayed kind)]
      exact (Hears.report kind).between hst hst
    · rw [line_other he]
      exact .nothing
  | rules pits kind => exact rules_hears h pits
  | @dismisses now other m room ds registered kind leaves =>
    rw [line_append, matchesOf_append, matchesOf_finish, List.append_nil]
    by_cases he : other = id
    · subst other
      have hl := h.orderly.linked id registered
      rw [line_finish]
      exact (leaves.hearsOwn h hl).between rfl
        (stage_admitted h' hl fun hr => (Table.mem_ids_erase.mp hr).2 rfl)
    · rw [line_finish_other he, List.append_nil]
      have hr : id ∈ (s.roll.registrations.erase other).ids ↔ id ∈ s.roll.registrations.ids := by
        rw [Table.mem_ids_erase]
        exact and_iff_left (Ne.symm he)
      exact leaves.hears h { s with roll := (s.roll.withdraw other).2, room := room } (.inl rfl) he
        rfl hr Iff.rfl
  | @loses now other room ds link leaves =>
    by_cases he : other = id
    · subst other
      obtain ⟨hline, hmatches⟩ := leaves.unheard
      rw [hline, hmatches]
      exact Hears.lost.between rfl (stage_out h' fun hl => (Roll.mem_links_remove.mp hl).2 rfl)
    · have hr : id ∈ (s.roll.registrations.erase other).ids ↔ id ∈ s.roll.registrations.ids := by
        rw [Table.mem_ids_erase]
        exact and_iff_left (Ne.symm he)
      have hl : id ∈ (s.roll.remove other).2.links ↔ id ∈ s.roll.links := by
        rw [Roll.mem_links_remove]
        exact and_iff_left (Ne.symm he)
      exact leaves.hears h { s with roll := (s.roll.remove other).2, room := room } (.inr rfl) he
        rfl hr hl
  | losesNothing => exact .nothing
  | @checks now order =>
    have hst : (s.checkLiveness now order).1.stage id = s.stage id := by
      refine stage_same rfl ?_ ?_
      · rw [checkLiveness_ids]
      · rw [checkLiveness_links]
    rw [hst]
    exact checkLiveness_hears order

end State

/-- The link that comes. -/
def Occasion.newcomer? : Occasion → Option PlayerId
  | notice _ (.connected id) => some id
  | _ => none

theorem newcomer?_eq_some {o : Occasion} {id : PlayerId} :
    o.newcomer? = some id ↔ ∃ now, o = .notice now (.connected id) := by
  constructor
  · intro h
    cases o with
    | check now order => cases h
    | notice now n =>
      cases n with
      | connected other =>
        cases h
        exact ⟨now, rfl⟩
      | message other m => cases h
      | lost other => cases h
  · rintro ⟨now, rfl⟩
    rfl

namespace Course

variable {seeds : Nat → UInt64} {interval patience : Nat} {start : Time} {id : PlayerId}

/-- What is kept up about one player: the log is in the language, and before the player's link comes
there is nothing. -/
structure Followed (id : PlayerId) (os : List Occasion) (c : Course) : Prop where
  spoke : Spoke id (c.hall.stage id) (matchesOf id c.deeds) (line id c.deeds)
  before : id ∉ os.filterMap Occasion.newcomer? →
    id ∉ c.hall.roll.links ∧ matchesOf id c.deeds = [] ∧ line id c.deeds = []

theorem Followed.step {os : List Occasion} {c : Course} {o : Occasion} {s : State} {made : Nat}
    {ds : List Deed} (h : Followed id os c) (hc : c.hall.Coherent)
    (hm : State.Moves c.hall (seeds c.made) o s ds)
    (fresh : o.newcomer? = some id → id ∉ os.filterMap Occasion.newcomer?) :
    Followed id (os ++ [o]) ⟨s, made, c.deeds ++ ds⟩ := by
  have hh := hm.hears hc id fun now ho => (h.before (fresh (newcomer?_eq_some.mpr ⟨now, ho⟩))).1
  constructor
  · rw [matchesOf_append, line_append]
    apply h.spoke.step hh
    · intro p hp
      exact mem_members_of_matchesOf hp
    · intro now ho
      exact (h.before (fresh (newcomer?_eq_some.mpr ⟨now, ho⟩))).2
  · intro hn
    rw [List.filterMap_append, List.mem_append, not_or] at hn
    obtain ⟨hlink, hmatches, hline⟩ := h.before hn.1
    have ho : ∀ now, o ≠ .notice now (.connected id) := by
      rintro now rfl
      exact hn.2 (List.mem_singleton_self id)
    rw [State.stage_out hc hlink] at hh
    obtain ⟨hps, hcs⟩ := hh.silent ho
    refine ⟨?_, ?_, ?_⟩
    · rw [hm.mem_links, not_or]
      exact ⟨fun ⟨now, h⟩ => ho now h, fun hl => hlink hl.1⟩
    · rw [matchesOf_append, hmatches, hps]
      rfl
    · rw [line_append, hline, hcs]
      rfl

theorem followed_run (os : List Occasion) (fresh : (os.filterMap Occasion.newcomer?).Nodup) :
    Followed id os ((opened interval patience start).run seeds os) := by
  revert fresh
  refine run_induction
    (P := fun os c => (os.filterMap Occasion.newcomer?).Nodup → Followed id os c) ?_ ?_ os
  · intro _
    constructor
    · have hout : Told id .out [] [] := .out .nil
      exact .ongoing rfl hout
    · intro _
      exact ⟨List.not_mem_nil, rfl, rfl⟩
  · intro os c o s' ds ih hc hm fresh
    rw [List.filterMap_append, List.nodup_append] at fresh
    obtain ⟨hos, -, hdisjoint⟩ := fresh
    refine (ih hos).step hc hm ?_
    intro ho hmem
    exact hdisjoint id hmem id (by simp [ho]) rfl

theorem next_forms {c : Course} (hc : c.hall.Coherent) (o : Occasion) :
    let c' := c.next seeds o
    (c.hall.room.phase ≠ .ready ∧ c'.hall.room.phase = .ready → ∃ p,
      c'.hall.room.running? = some p ∧ c'.pairings = c.pairings ++ [p] ∧ c'.made = c.made + 1) ∧
    (¬ (c.hall.room.phase ≠ .ready ∧ c'.hall.room.phase = .ready) →
      c'.pairings = c.pairings ∧ c'.made = c.made) := by
  intro c'
  have hm := State.meet_moves hc (seeds c.made) o
  have hp := hm.progress hc
  have hs' := (hm.coherent hc).room
  have hn : c' = _ := next_eq o
  rw [hn]
  constructor
  · rintro ⟨hr, hr'⟩
    obtain ⟨p, hrun, hpairings⟩ := hp.forms hc.room hs' hr hr'
    refine ⟨p, hrun, ?_, ?_⟩
    · simp only [pairings, List.filterMap_append, hpairings]
    · simp only [hpairings, List.length_singleton]
  · intro hr
    have hpairings := hp.forms_nothing hc.room hs' hr
    constructor
    · simp only [pairings, List.filterMap_append, hpairings, List.append_nil]
    · simp only [hpairings, List.length_nil, Nat.add_zero]

/-- Whatever the players do and whatever the links do in between, what is queued for `id`, apart from
what is heard at any time, is the beginning of a word of the language. Its episodes are the matches of
`id` in their order; of a match that has not begun yet, only the roster is heard. One seed is made for
each match that begins, and it goes to its two members, once to each, and to nobody else. -/
theorem transcript_isPrefix_word (seeds : Nat → UInt64) (interval patience : Nat) (start : Time)
    (os : List Occasion) (fresh : (os.filterMap Occasion.newcomer?).Nodup)
    (id : PlayerId) (limit : Nat) (announce : Bool) (acts : List Link.Act)
    (calls : acts.filterMap Link.Act.call? =
      ((opened interval patience start).run seeds os).deeds.filterMap (Deed.call? id)) :
    let c := (opened interval patience start).run seeds os
    let log := ((Link.spawn id limit announce).queued acts).filter audible
    (∃ es next : List (Episode id),
      es.map Episode.pairing = c.pairings.filter (fun p => id ∈ p.members) ∧ next.length ≤ 1 ∧
      log <+: word id (es ++ next) ∧ log.length ≤ (word id es).length + next.length) ∧
    c.pairings.map Pairing.seed = (List.range c.made).map seeds ∧
    (∀ p ∈ c.pairings, ∃ a b, a ≠ b ∧ p.members = [a, b]) ∧
    c.deeds.filter (Deed.carries .sendBagSeed) = c.pairings.flatMap Pairing.dealt ∧
    ∀ o, let c' := c.next seeds o
      (c.hall.room.phase ≠ .ready ∧ c'.hall.room.phase = .ready → ∃ p,
        c'.hall.room.running? = some p ∧ c'.pairings = c.pairings ++ [p] ∧ c'.made = c.made + 1) ∧
      (¬ (c.hall.room.phase ≠ .ready ∧ c'.hall.room.phase = .ready) →
        c'.pairings = c.pairings ∧ c'.made = c.made) := by
  intro c log
  have hf : Followed id os c := followed_run os fresh
  have hs : c.Seeded seeds := seeded_run interval patience start os
  have hlog : log <+: Link.spoken (line id c.deeds) := by
    have hq := (Link.queued_isPrefix (Link.spawn id limit announce) acts).filter audible
    rw [calls, ← spoken_filter] at hq
    exact hq
  refine ⟨(hf.spoke.fits.of_prefix hlog).word, hs.fresh, hs.two, hs.dealt, ?_⟩
  intro o
  exact next_forms (coherent_run os) o

/-- A match of `1` and `2` as `1` hears it, with turns of the link in between. -/
theorem transcript_of_winner :
    ∃ es next : List (Episode 1), es.map Episode.pairing = [⟨[1, 2], 7⟩] ∧ next.length ≤ 1 ∧
      [.accepted, .assignId 1, .roomPlayerList [⟨1, 3⟩], .roomPlayerJoined ⟨2, 4⟩, .bagSeed 7,
        .allPlayersReady, .gameOver ⟨1, 2⟩] <+: word 1 (es ++ next) ∧
      7 ≤ (word 1 es).length + next.length :=
  (transcript_isPrefix_word (fun _ => 7) 5 5 0
    [.notice 0 (.connected 1), .notice 0 (.connected 2),
      .notice 1 (.message 1 (.register ⟨0, 3⟩)), .notice 1 (.message 2 (.register ⟨0, 4⟩)),
      .notice 2 (.message 1 .requestRoomJoin), .notice 2 (.message 2 .requestRoomJoin),
      .notice 3 (.message 2 (.playerDead 1))]
    (by decide) 1 5000 true
    [.call (.send .accepted), .turn (.takeOrder 0), .call (.send (.assignId 1)), .turn (.wrote 3),
      .call (.send .roomJoinAccepted), .call (.send (.roomPlayerList [⟨1, 3⟩])),
      .turn .readerStops, .call (.send (.roomPlayerJoined ⟨2, 4⟩)),
      .call (.send (.bagSeed 7)), .call (.send .allPlayersReady), .call (.send (.gameOver ⟨1, 2⟩))]
    (by decide)).1

end Course
end BlockDuel.Hall
