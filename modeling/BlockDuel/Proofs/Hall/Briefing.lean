import BlockDuel.Proofs.Hall.Relay
import BlockDuel.Proofs.Hall.Hearing

/-!
What a player hears before its first match. Whatever else goes on in the hall, the first seed and the
first word of a start that a player hears are those of the first match that the player is in, and the
players it has heard of by then are the two members of this match, in the order of joining.
-/
namespace BlockDuel.Hall
open Wire

/-- What a player says on an occasion. -/
def Occasion.said? (id : PlayerId) : Occasion → Option Message
  | notice _ (.message other m) => if other = id then some m else none
  | _ => none

/-- What is sent over a link was handed over for sending there. -/
theorem Deed.sent?_of_call? {d : Deed} {id : PlayerId} {m : Message}
    (h : d.call? id = some (.send m)) : d.sent? = some (id, m) := by
  cases d with
  | post receiver m' =>
    simp only [call?] at h
    split at h
    · next hr =>
      cases h
      rw [hr]
      rfl
    · cases h
  | finish other | cut other =>
    simp only [call?] at h
    split at h <;> cases h
  | miss receiver m' | opens members seed | rules v => cases h

/-- On this occasion the match `p` begins. -/
structure Course.Forms (seeds : Nat → UInt64) (c : Course) (o : Occasion) (p : Pairing) : Prop where
  before : c.hall.room.phase ≠ .ready
  after : (c.next seeds o).hall.room = ⟨p.members, .ready, some p.seed⟩
  seed : p.seed = seeds c.made
  made : (c.next seeds o).made = c.made + 1
  pairings : (c.next seeds o).pairings = c.pairings ++ [p]
  roster : (c.next seeds o).hall.roster.map Player.id = p.members

/-- At some time in the past `p` began, between the players of `roster`. -/
def Course.Formed (seeds : Nat → UInt64) (c : Course) (os : List Occasion) (p : Pairing)
    (roster : List Player) : Prop :=
  ∃ before o after, os = before ++ o :: after ∧ (c.run seeds before).Forms seeds o p ∧
    ((c.run seeds before).next seeds o).hall.roster = roster

theorem Course.Formed.concat {seeds : Nat → UInt64} {c : Course} {os : List Occasion} {p : Pairing}
    {roster : List Player} (h : c.Formed seeds os p roster) (o : Occasion) :
    c.Formed seeds (os ++ [o]) p roster := by
  obtain ⟨before, o', after, rfl, hf⟩ := h
  exact ⟨before, o', after ++ [o], by simp, hf⟩

/-- What a player hears up to the start of a match. The member that was waiting is told of itself and
then of the other one, who is told of both. -/
def briefing (id : PlayerId) (p : Pairing) (roster : List Player) : List Message :=
  [.accepted, .assignId id] ++
    (if p.members.head? = some id then
      .roomPlayerList (roster.take 1) :: (roster.drop 1).map .roomPlayerJoined
    else [.roomPlayerList roster]) ++
    [.bagSeed p.seed, .allPlayersReady]

namespace State

/-- How a registered player is entered. -/
def card? (s : State) (id : PlayerId) : Option Player :=
  (s.roll.registration? id).map Registration.player

variable {s s' : State} {seed : UInt64} {o : Occasion} {ds : List Deed} {id : PlayerId} {p : Pairing}
  {m : Message} {q : Player}

theorem of_stage_waiting (hc : s.Coherent) (h : s.stage id = .waiting) :
    s.room = ⟨[id], .waitingForSecond, none⟩ := by
  unfold stage at h
  split at h
  · next hm =>
    split at h
    · cases h
    · next hp =>
      apply hc.room.eq_waiting ?_ hm
      rw [ne_eq, ← hc.room.running?_isSome, hp]
      exact Bool.false_ne_true
  · split at h
    · cases h
    · split at h <;> cases h

/-- The entry of a player stays as it is for as long as there is one. -/
theorem Moves.card_kept (hm : Moves s seed o s' ds) (hr : id ∈ s.roll.registrations.ids)
    (hr' : id ∈ s'.roll.registrations.ids) : s'.card? id = s.card? id := by
  unfold card?
  cases hm with
  | idles | answersPing | acknowledges | seats | pairs | relays | rules | losesNothing | admits =>
    simp [Roll.registration?]
  | registers link new kind player =>
    rw [Roll.registration?, Table.get?_put_other new (ne_of_mem_of_not_mem hr new)]
    rfl
  | hearsPong kind =>
    rw [Roll.registration?_adjust]
    split
    · cases s.roll.registration? id <;> rfl
    · rfl
  | dismisses registered kind leaves =>
    rw [Roll.registration?, Roll.withdraw, Table.get?_erase_other (Table.mem_ids_erase.mp hr').2]
    rfl
  | loses link leaves =>
    rw [Roll.registration?, Roll.remove, Table.get?_erase_other (Table.mem_ids_erase.mp hr').2]
    rfl
  | @checks now order =>
    unfold checkLiveness
    dsimp only
    rw [Roll.registration?_adjustAll (f := fun g => { g with closing := true }) fun _ => rfl]
    split
    · cases s.roll.registration? id <;> rfl
    · rfl

theorem source_of_line (hm : Moves s seed o s' ds) (h : .send m ∈ line id ds) :
    Source s s' seed o id m := by
  obtain ⟨d, hd, hdc⟩ := List.mem_filterMap.mp (List.mem_of_mem_filter h)
  exact hm.source hd (Deed.sent?_of_call? hdc)

theorem roster_of_two {x y : PlayerId} {qx qy : Player} (hm : s.room.members = [x, y])
    (hx : s.card? x = some qx) (hy : s.card? y = some qy) : s.roster = [qx, qy] := by
  unfold card? at hx hy
  obtain ⟨gx, hgx, rfl⟩ := Option.map_eq_some_iff.mp hx
  obtain ⟨gy, hgy, rfl⟩ := Option.map_eq_some_iff.mp hy
  simp [roster, hm, hgx, hgy]

/-- The list of players has the members in the order of joining. -/
theorem Coherent.roster_ids (h : s.Coherent) : s.roster.map Player.id = s.room.members := by
  have hids (members : List PlayerId) (hreg : ∀ id ∈ members, id ∈ s.roll.registrations.ids) :
      ((members.filterMap s.roll.registration?).map (·.player)).map Player.id = members := by
    induction members with
    | nil => rfl
    | cons id members ih =>
      obtain ⟨g, hg⟩ : ∃ g, s.roll.registration? id = some g :=
        Table.exists_get? (hreg id List.mem_cons_self)
      have hid : g.player.id = id := (h.orderly.genuine _ (Table.mem_of_get? hg)).2.2
      have hrest := ih fun x hx => hreg x (List.mem_cons_of_mem id hx)
      simp only [List.filterMap_cons, hg, List.map_cons, hid, hrest]
  exact hids s.room.members h.seated

theorem Moves.opens (hm : Moves s seed o s' ds) (h : s.Coherent)
    (hp : p ∈ ds.filterMap Deed.pairing?) :
    s.room.phase ≠ .ready ∧ s'.room = ⟨p.members, .ready, some p.seed⟩ ∧ p.seed = seed := by
  cases hm.progress h with
  | same room pairings =>
    rw [pairings] at hp
    cases hp
  | ends q v before after settled gaveUp pairings =>
    rw [pairings] at hp
    cases hp
  | begins q before after pairings =>
    rw [pairings, List.mem_singleton] at hp
    subst hp
    refine ⟨?_, ?_, ?_⟩
    · rw [ne_eq, ← h.room.running?_isSome, before]
      exact Bool.false_ne_true
    · have hs := (hm.coherent h).room
      generalize s'.room = r at hs after
      cases hs with
      | empty => cases after
      | waiting a => cases after
      | playing ne seed =>
        cases after
        rfl
    · cases hm.deals with
      | nothing none =>
        rw [pairings] at none
        cases none
      | once q fresh two one =>
        rw [pairings] at one
        cases one
        exact fresh

end State

section

variable {s s' : State} {seed : UInt64} {o : Occasion} {id : PlayerId} {m : Message}

/-- A list of players is always that of the room, and goes to one who asked to join. -/
theorem Source.list (h : Source s s' seed o id m) (hk : m.kind = .roomPlayerList) :
    m = .roomPlayerList s'.roster ∧ ∃ m', o.said? id = some m' ∧ m'.kind = .requestRoomJoin := by
  cases h with
  | copy relayed pits =>
    rw [hk] at relayed
    cases relayed
  | composed own composes =>
    cases composes with
    | @roster now id m' kind joins => exact ⟨rfl, m', if_pos rfl, kind⟩
    | welcome | number | ping | pong | answer | newcomer | seed | start | verdict | leaving => cases hk

/-- A newcomer is one who joins the waiting player. -/
theorem Source.newcomer (h : Source s s' seed o id m) (hk : m.kind = .roomPlayerJoined) :
    ∃ x q, s'.room.members = [id, x] ∧ x ∈ s.roll.registrations.ids ∧ s.card? x = some q ∧
      m = .roomPlayerJoined q := by
  cases h with
  | copy relayed pits =>
    rw [hk] at relayed
    cases relayed
  | composed own composes =>
    cases composes with
    | @newcomer now a x m g kind joins waiting registered =>
      have hcard : s.card? x = some g.player := by
        unfold State.card?
        rw [registered]
        rfl
      exact ⟨x, g.player, joins, Table.mem_ids_of_get? registered, hcard, rfl⟩
    | welcome | number | ping | pong | answer | roster | seed | start | verdict | leaving => cases hk

end

/-- What a player with an open link has heard before its first match. -/
inductive Prelude (id : PlayerId) (s : State) : List Message → Prop
  | admitted (stage : s.stage id = .admitted) : Prelude id s [.accepted]
  | idle (stage : s.stage id = .idle) : Prelude id s [.accepted, .assignId id]
  | waiting {q : Player} (stage : s.stage id = .waiting) (card : s.card? id = some q) :
      Prelude id s [.accepted, .assignId id, .roomPlayerList [q]]

/-- What a player has heard: nothing, a prelude, or the briefing for its first match and perhaps more.
Or the link was closed before that, and no start of a match will be heard. -/
inductive Briefed (F : Pairing → List Player → Prop) (id : PlayerId) (s : State)
    (cs : List Link.Call) (ps : List Pairing) : Prop
  | absent (stage : s.stage id = .out) (calls : cs = []) (unmatched : ps = [])
  | listening {log : List Message} (prelude : Prelude id s log) (calls : cs = log.map .send)
      (unmatched : ps = [])
  | met {p : Pairing} {roster : List Player} {rest : List Link.Call} (formed : F p roster)
      (first : ps.head? = some p) (calls : cs = (briefing id p roster).map .send ++ rest)
  | missed (silent : ∀ m ∈ Link.spoken cs, m.kind ≠ .allPlayersReady) (heard : cs ≠ [])
      (closed : (∃ c ∈ cs, ∀ m, c ≠ .send m) ∨ s.stage id = .out)

section

variable {F F' : Pairing → List Player → Prop} {s s' : State} {seed : UInt64} {o : Occasion}
  {ds : List Deed} {id : PlayerId} {cs : List Link.Call} {ps : List Pairing} {log : List Message}

theorem Prelude.silent (h : Prelude id s log) :
    log ≠ [] ∧ ∀ m ∈ log, m.kind ≠ .allPlayersReady := by
  cases h <;> simp [Message.accepted, Message.assignId, Message.roomPlayerList, Message.bare,
    Message.carrying]

/-- A prelude lasts as long as the player stands where it stood. -/
theorem Prelude.still (h : Prelude id s log) (hs : s.Coherent) (hs' : s'.Coherent)
    (hm : State.Moves s seed o s' ds) (stage : s'.stage id = s.stage id) : Prelude id s' log := by
  cases h with
  | admitted at_ => exact .admitted (stage.trans at_)
  | idle at_ => exact .idle (stage.trans at_)
  | waiting at_ card =>
    have hroom := State.of_stage_waiting hs at_
    have hroom' := State.of_stage_waiting hs' (stage.trans at_)
    have hr : id ∈ s.roll.registrations.ids := hs.seated id (by simp [hroom])
    have hr' : id ∈ s'.roll.registrations.ids := hs'.seated id (by simp [hroom'])
    exact .waiting (stage.trans at_) ((hm.card_kept hr hr').trans card)

/-- One who listens and whose link is closed has missed the match. -/
theorem Prelude.closes (h : Prelude id s log) {c : Link.Call} (closes : ∀ m, c ≠ .send m)
    (rest : List Link.Call) : Briefed F id s' (log.map .send ++ c :: rest) ps := by
  refine .missed ?_ (by simp) (.inl ⟨c, by simp, closes⟩)
  have hrest : Link.spoken (c :: rest) = [] := by
    cases c with
    | send m => exact absurd rfl (closes m)
    | shutdown => rfl
    | disconnect => rfl
  rw [Link.spoken_send, hrest, List.append_nil]
  exact h.silent.2

theorem Prelude.present (h : Prelude id s log) : s.stage id ≠ .out ∧ ∀ p, s.stage id ≠ .playing p := by
  cases h with
  | admitted stage | idle stage | waiting stage card =>
    rw [stage]
    exact ⟨Stage.noConfusion, fun p => Stage.noConfusion⟩

theorem Prelude.of_admitted (h : Prelude id s log) (stage : s.stage id = .admitted) :
    log = [.accepted] := by
  cases h with
  | admitted at_ => rfl
  | idle at_ | waiting at_ card =>
    rw [stage] at at_
    cases at_

theorem Prelude.of_idle (h : Prelude id s log) (stage : s.stage id = .idle) :
    log = [.accepted, .assignId id] := by
  cases h with
  | idle at_ => rfl
  | admitted at_ | waiting at_ card =>
    rw [stage] at at_
    cases at_

theorem Prelude.of_waiting (h : Prelude id s log) (stage : s.stage id = .waiting) :
    ∃ q, s.card? id = some q ∧ log = [.accepted, .assignId id, .roomPlayerList [q]] := by
  cases h with
  | @waiting q at_ card => exact ⟨q, card, rfl⟩
  | admitted at_ | idle at_ =>
    rw [stage] at at_
    cases at_

/-- A player who is seated alone is the only one on the list. -/
theorem State.Coherent.roster_of_waiting (h : s.Coherent) (stage : s.stage id = .waiting) :
    ∃ q, s.card? id = some q ∧ s.roster = [q] := by
  have hroom := State.of_stage_waiting h stage
  have hr : id ∈ s.roll.registrations.ids := h.seated id (by simp [hroom])
  obtain ⟨g, hg⟩ : ∃ g, s.roll.registration? id = some g := Table.exists_get? hr
  have hg' : s.roll.registration? id = some g := hg
  exact ⟨g.player, by simp [State.card?, hg'], by simp [State.roster, hroom, hg']⟩

/-- The waiting member of a match that begins has heard of itself and hears of the newcomer. -/
theorem State.Moves.roster_of_newcomer (hm : State.Moves s seed o s' ds) (hs : s.Coherent)
    (stage : s.stage id = .waiting) {q newcomer : Player} (card : s.card? id = some q)
    (h : .send (.roomPlayerJoined newcomer) ∈ line id ds) :
    ∃ q', s'.roster = [q, q'] ∧ Message.roomPlayerJoined newcomer = .roomPlayerJoined q' := by
  have hs' := hm.coherent hs
  have hroom := State.of_stage_waiting hs stage
  obtain ⟨x, q', hmembers, hx, hcard, heq⟩ := (State.source_of_line hm h).newcomer rfl
  have hr : id ∈ s.roll.registrations.ids := hs.seated id (by simp [hroom])
  have hr' : id ∈ s'.roll.registrations.ids := hs'.seated id (by simp [hmembers])
  have hx' : x ∈ s'.roll.registrations.ids := hs'.seated x (by simp [hmembers])
  refine ⟨q', State.roster_of_two hmembers ?_ ?_, heq⟩
  · exact (hm.card_kept hr hr').trans card
  · exact (hm.card_kept hx hx').trans hcard

/-- What an occasion makes of a listener. -/
theorem Prelude.step (h : Prelude id s log) (hs : s.Coherent) (hm : State.Moves s seed o s' ds)
    (hh : Hears id o (s.stage id) (s'.stage id) (line id ds) (matchesOf id ds))
    (forms : ∀ p, s.room.phase ≠ .ready → s'.room = ⟨p.members, .ready, some p.seed⟩ →
      p.seed = seed → F p s'.roster) :
    Briefed F id s' (log.map .send ++ line id ds) (matchesOf id ds) := by
  have hs' := hm.coherent hs
  obtain ⟨hthere, hidle⟩ := h.present
  have hsource {m : Message} (hmem : .send m ∈ line id ds) := State.source_of_line hm hmem
  have hnewcomer {q newcomer : Player} (stage : s.stage id = .waiting) (card : s.card? id = some q)
      (hmem : .send (.roomPlayerJoined newcomer) ∈ line id ds) :=
    hm.roster_of_newcomer hs stage card hmem
  have hopens (p : Pairing) (hp : p ∈ matchesOf id ds) : F p s'.roster := by
    obtain ⟨hbefore, hafter, hseed⟩ := hm.opens hs (List.mem_of_mem_filter hp)
    exact forms p hbefore hafter hseed
  generalize hst : s.stage id = st at hh
  generalize hst' : s'.stage id = st' at hh
  generalize line id ds = cs at hh hsource hnewcomer ⊢
  generalize matchesOf id ds = ps at hh hopens ⊢
  cases hh with
  | nothing =>
    refine .listening (h.still hs hs' hm (hst'.trans hst.symm)) ?_ rfl
    rw [List.append_nil]
  | comes => exact absurd hst hthere
  | registers =>
    rw [h.of_admitted hst]
    exact .listening (.idle hst') rfl rfl
  | @waits roster =>
    obtain ⟨q, hcard, hroster⟩ := hs'.roster_of_waiting hst'
    have hlist : Message.roomPlayerList roster = .roomPlayerList s'.roster :=
      ((hsource (by simp)).list rfl).1
    rw [h.of_idle hst, hlist, hroster]
    exact .listening (.waiting hst' hcard) rfl rfl
  | @joins p roster member second =>
    have hlist : Message.roomPlayerList roster = .roomPlayerList s'.roster :=
      ((hsource (by simp)).list rfl).1
    have hcalls : [.accepted, .assignId id].map Link.Call.send ++
        [.send (.roomPlayerList s'.roster), .send (.bagSeed p.seed), .send .allPlayersReady] =
        (briefing id p s'.roster).map .send ++ [] := by
      simp [briefing, second]
    rw [h.of_idle hst, hlist]
    exact .met (hopens p (by simp)) rfl hcalls
  | @isJoined p newcomer member first =>
    obtain ⟨q, hcard, hlog⟩ := h.of_waiting hst
    obtain ⟨q', hroster, hjoined⟩ := hnewcomer hst hcard List.mem_cons_self
    have hcalls : [.accepted, .assignId id, .roomPlayerList [q]].map Link.Call.send ++
        [.send (.roomPlayerJoined q'), .send (.bagSeed p.seed), .send .allPlayersReady] =
        (briefing id p s'.roster).map .send ++ [] := by
      simp [briefing, first, hroster]
    rw [hlog, hjoined]
    exact .met (hopens p (by simp)) rfl hcalls
  | report | verdict | concedes => exact absurd hst (hidle _)
  | dismissed => exact h.closes (c := .shutdown) (fun m hm => nomatch hm) []
  | lost =>
    rw [List.append_nil]
    refine .missed ?_ ?_ (.inr hst')
    · rw [Link.spoken_map_send]
      exact h.silent.2
    · simpa using h.silent.1
  | checked there cuts =>
    cases cs with
    | nil =>
      refine .listening (h.still hs hs' hm (hst'.trans hst.symm)) ?_ rfl
      rw [List.append_nil]
    | cons c cs =>
      rw [cuts c List.mem_cons_self]
      exact h.closes (c := .disconnect) (fun m hm => nomatch hm) cs

/-- What an occasion makes of any player. -/
theorem Briefed.step (h : Briefed F id s cs ps) (hs : s.Coherent) (hm : State.Moves s seed o s' ds)
    (fresh : ∀ now, o = .notice now (.connected id) → id ∉ s.roll.links ∧ ps = [] ∧ cs = [])
    (still : ∀ p roster, F p roster → F' p roster)
    (forms : ∀ p, s.room.phase ≠ .ready → s'.room = ⟨p.members, .ready, some p.seed⟩ →
      p.seed = seed → F' p s'.roster) :
    Briefed F' id s' (cs ++ line id ds) (ps ++ matchesOf id ds) := by
  have hh := hm.hears hs id fun now ho => (fresh now ho).1
  cases h with
  | listening prelude calls unmatched =>
    subst calls unmatched
    exact prelude.step hs hm hh forms
  | @met p roster rest formed first calls =>
    have hcalls : cs ++ line id ds = (briefing id p roster).map .send ++ (rest ++ line id ds) := by
      rw [calls, List.append_assoc]
    refine .met (still p roster formed) ?_ hcalls
    rw [List.head?_append, first]
    rfl
  | absent stage calls unmatched =>
    subst calls unmatched
    rw [stage] at hh
    generalize hst' : s'.stage id = st' at hh
    generalize line id ds = cs at hh ⊢
    generalize matchesOf id ds = ps at hh ⊢
    cases hh with
    | nothing | lost => exact .absent hst' rfl rfl
    | comes => exact .listening (.admitted hst') rfl rfl
    | dismissed there | checked there => exact absurd rfl there
  | missed silent heard closed =>
    have heard' : cs ++ line id ds ≠ [] := by simp [heard]
    rcases closed with ⟨c, hc, closes⟩ | stage
    · refine .missed ?_ heard' (.inl ⟨c, List.mem_append_left _ hc, closes⟩)
      rw [Link.spoken_closed hc closes]
      exact silent
    · -- nobody comes twice, so this player stays away
      have hout : s'.stage id = .out ∧ line id ds = [] := by
        rw [stage] at hh
        generalize s'.stage id = st' at hh ⊢
        generalize line id ds = cs at hh ⊢
        generalize matchesOf id ds = ps at hh
        cases hh with
        | nothing | lost => exact ⟨rfl, rfl⟩
        | comes connected => exact absurd (fresh _ connected).2.2 heard
        | dismissed there | checked there => exact absurd rfl there
      rw [hout.2, List.append_nil]
      exact .missed silent heard (.inr hout.1)

/-- The first start that is heard is that of the first match. -/
theorem Briefed.of_start (h : Briefed F id s cs ps) {ms : List Message}
    (hms : ms <+: Link.spoken cs) (start : ∃ m ∈ ms, m.kind = .allPlayersReady) :
    ∃ p roster, F p roster ∧ ps.head? = some p ∧ briefing id p roster <+: Link.spoken cs := by
  obtain ⟨m, hm, hk⟩ := start
  have hmem : m ∈ Link.spoken cs := hms.subset hm
  cases h with
  | absent stage calls => simp [calls, Link.spoken] at hmem
  | listening prelude calls =>
    rw [calls, Link.spoken_map_send] at hmem
    exact absurd hk (prelude.silent.2 m hmem)
  | @met p roster rest formed first calls =>
    refine ⟨p, roster, formed, first, ?_⟩
    rw [calls, Link.spoken_send]
    exact List.prefix_append _ _
  | missed silent => exact absurd hk (silent m hmem)

end

namespace Course

variable {seeds : Nat → UInt64} {interval patience : Nat} {start : Time}

theorem forms_of_ready {c : Course} (hc : c.hall.Coherent) {o : Occasion}
    (before : c.hall.room.phase ≠ .ready) (after : (c.next seeds o).hall.room.phase = .ready) :
    ∃ p, c.Forms seeds o p := by
  obtain ⟨hforms, -⟩ := next_forms hc o
  obtain ⟨p, -, hpairings, hmade⟩ := hforms ⟨before, after⟩
  have hm := State.meet_moves hc (seeds c.made) o
  have hp : p ∈ (c.hall.meet (seeds c.made) o).2.filterMap Deed.pairing? := by
    have hnew : c.pairings ++ (c.hall.meet (seeds c.made) o).2.filterMap Deed.pairing? =
        c.pairings ++ [p] := by
      rw [← hpairings, next_eq]
      exact List.filterMap_append.symm
    rw [List.append_cancel_left hnew]
    exact List.mem_singleton_self p
  obtain ⟨-, hroom, hseed⟩ := hm.opens hc hp
  have hroom' : (c.next seeds o).hall.room = ⟨p.members, .ready, some p.seed⟩ := by
    rw [next_eq]
    exact hroom
  refine ⟨p, before, hroom', hseed, hmade, hpairings, ?_⟩
  rw [(next_coherent hc o).roster_ids, hroom']

/-- A match that begins has two members, and both are on the list of players. -/
theorem Forms.two {c : Course} {o : Occasion} {p : Pairing} (h : c.Forms seeds o p)
    (hc : c.hall.Coherent) :
    ∃ a b q q', a ≠ b ∧ p.members = [a, b] ∧ (c.next seeds o).hall.roster = [q, q'] := by
  have hsound : (c.next seeds o).hall.room.Sound := (next_coherent hc o).room
  have hids := h.roster
  rw [h.after] at hsound
  generalize hr : (⟨p.members, .ready, some p.seed⟩ : Room) = r at hsound
  cases hsound with
  | empty | waiting a => cases congrArg Room.phase hr
  | @playing a b ne seed =>
    have hmembers : p.members = [a, b] := congrArg Room.members hr
    rw [hmembers] at hids
    obtain ⟨q, rest, hq, -, hrest⟩ := List.map_eq_cons_iff.mp hids
    obtain ⟨q', nobody, hq', -, hnobody⟩ := List.map_eq_cons_iff.mp hrest
    rw [List.map_eq_nil_iff.mp hnobody] at hq'
    exact ⟨a, b, q, q', ne, hmembers, hq.trans (congrArg (q :: ·) hq')⟩

theorem briefed_run (os : List Occasion) (fresh : (os.filterMap Occasion.newcomer?).Nodup)
    (id : PlayerId) :
    let c := (opened interval patience start).run seeds os
    Briefed ((opened interval patience start).Formed seeds os) id c.hall (line id c.deeds)
      (matchesOf id c.deeds) := by
  intro c
  induction os using List.reverseRecOn with
  | nil => exact .absent rfl rfl rfl
  | append_singleton os o ih =>
    have hos : (os.filterMap Occasion.newcomer?).Nodup ∧
        ∀ now, o = .notice now (.connected id) → id ∉ os.filterMap Occasion.newcomer? := by
      rw [List.filterMap_append, List.nodup_append] at fresh
      refine ⟨fresh.1, ?_⟩
      rintro now rfl hmem
      exact fresh.2.2 id hmem id (by simp [Occasion.newcomer?]) rfl
    let b := (opened interval patience start).run seeds os
    have hb : b.hall.Coherent := coherent_run os
    have hm := State.meet_moves hb (seeds b.made) o
    have hn : c = b.next seeds o := run_concat os o
    have hforms (p : Pairing) (before : b.hall.room.phase ≠ .ready)
        (after : (b.hall.meet (seeds b.made) o).1.room = ⟨p.members, .ready, some p.seed⟩) :
        (opened interval patience start).Formed seeds (os ++ [o]) p
          (b.hall.meet (seeds b.made) o).1.roster := by
      have hroom : (b.next seeds o).hall.room = ⟨p.members, .ready, some p.seed⟩ := by
        rw [next_eq]
        exact after
      have hready : (b.next seeds o).hall.room.phase = .ready := by rw [hroom]
      obtain ⟨q, hq⟩ := forms_of_ready hb before hready
      have hpq : p = q := by
        have hsame := hroom.symm.trans hq.after
        cases p
        cases q
        simpa using hsame
      subst hpq
      refine ⟨os, o, [], rfl, hq, ?_⟩
      rw [next_eq]
    rw [hn, next_eq]
    simp only [line_append, matchesOf_append]
    refine (ih hos.1).step hb hm ?_ ?_ ?_
    · intro now ho
      exact (followed_run os hos.1).before (hos.2 now ho)
    · intro p roster h
      exact h.concat o
    · intro p before after _
      exact hforms p before after

end Course
end BlockDuel.Hall
