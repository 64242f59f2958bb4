import BlockDuel.Proofs.Hall.Hearing
import BlockDuel.Proofs.Hall.Relay

/-!
A running match and everybody else. What other players do, whatever it is, changes nothing for the two
who play: without it the hall would have the same room, would know the same of the two players and
would have asked the same of their links.
-/
namespace BlockDuel.Hall
open Wire

/-- The second list is the first one without the notices of all players but `a` and `b`. It has the
same looks after the silent players, though perhaps in other orders. -/
inductive Without (a b : PlayerId) : List Occasion → List Occasion → Prop
  | nil : Without a b [] []
  | leaveOut {now : Time} {n : Notice} {os os' : List Occasion} (foreign : n.id ≠ a ∧ n.id ≠ b)
      (rest : Without a b os os') : Without a b (.notice now n :: os) os'
  | keep {now : Time} {n : Notice} {os os' : List Occasion} (own : n.id = a ∨ n.id = b)
      (rest : Without a b os os') : Without a b (.notice now n :: os) (.notice now n :: os')
  | check {now : Time} (order order' : List PlayerId) {os os' : List Occasion}
      (rest : Without a b os os') : Without a b (.check now order :: os) (.check now order' :: os')

/-- A look after the silent players visits every registered player, and nobody twice. -/
def Occasion.Thorough (s : State) : Occasion → Prop
  | notice _ _ => True
  | check _ order => order.Nodup ∧ ∀ id ∈ s.roll.registrations.ids, id ∈ order

instance (s : State) : (o : Occasion) → Decidable (o.Thorough s)
  | .notice _ _ => .isTrue trivial
  | .check _ order =>
    have : Decidable (∀ id ∈ s.roll.registrations.ids, id ∈ order) := List.decidableBAll _ _
    inferInstanceAs (Decidable (order.Nodup ∧ ∀ id ∈ s.roll.registrations.ids, id ∈ order))

namespace Course

/-- All looks after the silent players are thorough. -/
def Thorough (seeds : Nat → UInt64) (c : Course) : List Occasion → Prop
  | [] => True
  | o :: os => o.Thorough c.hall ∧ (c.next seeds o).Thorough seeds os

/-- A match is running all the time. -/
def Lasts (seeds : Nat → UInt64) (c : Course) : List Occasion → Prop
  | [] => c.hall.room.phase = .ready
  | o :: os => c.hall.room.phase = .ready ∧ (c.next seeds o).Lasts seeds os

instance decidableThorough (seeds : Nat → UInt64) :
    (c : Course) → (os : List Occasion) → Decidable (c.Thorough seeds os)
  | _, [] => .isTrue trivial
  | c, o :: os =>
    have : Decidable ((c.next seeds o).Thorough seeds os) := decidableThorough seeds _ os
    inferInstanceAs (Decidable (_ ∧ _))

instance decidableLasts (seeds : Nat → UInt64) :
    (c : Course) → (os : List Occasion) → Decidable (c.Lasts seeds os)
  | c, [] => inferInstanceAs (Decidable (c.hall.room.phase = .ready))
  | c, o :: os =>
    have : Decidable ((c.next seeds o).Lasts seeds os) := decidableLasts seeds _ os
    inferInstanceAs (Decidable (_ ∧ _))

theorem Lasts.ready {seeds : Nat → UInt64} {c : Course} {os : List Occasion}
    (h : c.Lasts seeds os) : c.hall.room.phase = .ready := by
  cases os with
  | nil => exact h
  | cons o os => exact h.1

end Course

namespace State

variable {s s' t : State} {seed : UInt64} {now : Time} {n : Notice} {ds : List Deed}
  {a b x y id : PlayerId} {m : Message}

/-- Nothing happens to `x`, neither in the books nor over the link. -/
structure Untouched (x : PlayerId) (s s' : State) (ds : List Deed) : Prop where
  link : x ∈ s'.roll.links ↔ x ∈ s.roll.links
  registration : s'.roll.registration? x = s.roll.registration? x
  calls : ds.filterMap (Deed.call? x) = []

/-- One who is not in the room leaves it as it is. -/
theorem Leaves.of_outside {tell : Message → Deed} {r r' : Room} (h : Leaves tell id r r' ds)
    (hout : id ∉ r.members) : r' = r ∧ ds = [] := by
  cases h with
  | stranger out => exact ⟨rfl, rfl⟩
  | alone => simp at hout
  | concedes pits => exact absurd pits.mem hout

/-- Only a notice of the player touches the link. -/
theorem Moves.link_untouched (hm : Moves s seed (.notice now n) s' ds) (hx : n.id ≠ x) :
    x ∈ s'.roll.links ↔ x ∈ s.roll.links := by
  rw [hm.mem_links]
  constructor
  · rintro (⟨now', ho⟩ | ⟨hl, -⟩)
    · cases ho
      exact absurd rfl hx
    · exact hl
  · intro hl
    refine .inr ⟨hl, ?_⟩
    rintro now' ho
    cases ho
    exact hx rfl

/-- A notice of another player changes nothing about the match and nothing for the two who play. -/
theorem Moves.foreign (hm : Moves s seed (.notice now n) s' ds) (pits : s.room.Pits a b)
    (hn : n.id ≠ a ∧ n.id ≠ b) :
    s'.room = s.room ∧ s'.heartbeat = s.heartbeat ∧ ds.filterMap Deed.pairing? = [] ∧
      ∀ x, x = a ∨ x = b → Untouched x s s' ds := by
  have hout : n.id ∉ s.room.members := by
    rw [pits.mem_iff, not_or]
    exact hn
  have hne (x : PlayerId) (hx : x = a ∨ x = b) : n.id ≠ x := by
    rcases hx with rfl | rfl
    · exact hn.1
    · exact hn.2
  have hlink (x : PlayerId) (hx : x = a ∨ x = b) := hm.link_untouched (hne x hx)
  cases hm with
  | idles | losesNothing =>
    exact ⟨rfl, rfl, rfl, fun x hx => ⟨Iff.rfl, rfl, rfl⟩⟩
  | @admits now id =>
    refine ⟨rfl, rfl, rfl, fun x hx => ⟨hlink x hx, ?_, ?_⟩⟩
    · simp [Roll.registration?]
    · simpa [Deed.call?, Notice.id] using hne x hx
  | @registers now id m p link new kind player =>
    refine ⟨rfl, rfl, rfl, fun x hx => ⟨hlink x hx, ?_, ?_⟩⟩
    · exact Table.get?_put_other new (hne x hx).symm
    · simpa [Deed.call?, Notice.id] using hne x hx
  | @hearsPong now id m kind =>
    refine ⟨rfl, rfl, rfl, fun x hx => ⟨hlink x hx, ?_, rfl⟩⟩
    have hx' : x ≠ id := (hne x hx).symm
    rw [Roll.registration?_adjust, if_neg hx']
  | answersPing | acknowledges =>
    refine ⟨rfl, rfl, rfl, fun x hx => ⟨hlink x hx, rfl, ?_⟩⟩
    simpa [Deed.call?, Notice.id] using hne x hx
  | seats registered kind room => exact absurd pits.ready (by simp [room, Room.fresh])
  | pairs waiting registered kind ne room => exact absurd pits.ready (by simp [room])
  | relays own kind => exact absurd own.mem hout
  | rules own kind => exact absurd own.mem hout
  | dismisses registered kind leaves =>
    obtain ⟨hroom, rfl⟩ := leaves.of_outside hout
    refine ⟨hroom, rfl, rfl, fun x hx => ⟨hlink x hx, ?_, ?_⟩⟩
    · exact Table.get?_erase_other (hne x hx).symm
    · simpa [Deed.call?, Notice.id] using hne x hx
  | loses link leaves =>
    obtain ⟨hroom, rfl⟩ := leaves.of_outside hout
    refine ⟨hroom, rfl, rfl, fun x hx => ⟨hlink x hx, ?_, rfl⟩⟩
    exact Table.get?_erase_other (hne x hx).symm

/-- What a notice of `x` comes to while a match against `y` goes on. -/
def heed (s : State) (now : Time) (y : PlayerId) : Notice → State × List Deed
  | .connected x => (s, [.post x .accepted])
  | .message x m =>
    match m.kind with
    | .clientPong => ({ s with roll := s.roll.adjust x fun g => { g with lastPong := now } }, [])
    | .clientPing => (s, [.post x .serverPong])
    | .requestRoomJoin => (s, [.post x .roomJoinAccepted])
    | k => (s, if k.relayed then [.post y m] else [])
  | .lost _ => (s, [])

/-- When a player of the match leaves the room, it is empty. -/
theorem Leaves.of_pits {tell : Message → Deed} {r r' : Room} (h : Leaves tell x r r' ds)
    (pits : r.Pits x y) : r' = .fresh := by
  cases h with
  | stranger out => exact absurd pits.mem out
  | alone => rfl
  | concedes => rfl

/-- A player who gives up ends the match. -/
theorem meet_of_givesUp (h : s.Coherent) (pits : s.room.Pits x y) {o : Occasion}
    (ho : o.GivesUp x) : (s.meet seed o).1.room = .fresh := by
  have hl := h.member_linked pits.mem
  rcases ho with ⟨now, m, rfl, hk | hk⟩ | ⟨now, rfl⟩
  · rw [meet_message hl]
    simp only [hk, onPlayerDead, arbitrate_of_pits pits]
    rfl
  · obtain ⟨room, ds, hout, leaves⟩ := onUnregister_registered h (h.seated x pits.mem)
    rw [meet_message hl]
    simp only [hk, hout]
    exact leaves.of_pits pits
  · have hm := meet_moves h seed (.notice now (.lost x))
    generalize s.meet seed (.notice now (.lost x)) = out at hm
    obtain ⟨s', ds⟩ := out
    cases hm with
    | loses link leaves => exact leaves.of_pits pits
    | losesNothing absent => exact absurd hl absent

/-- As long as the match goes on, neither of the two has given up. -/
theorem not_givesUp_of_ready (h : s.Coherent) (pits : s.room.Pits x y) {o : Occasion}
    (ready : (s.meet seed o).1.room.phase = .ready) : ¬ o.GivesUp x := by
  intro hg
  rw [meet_of_givesUp h pits hg] at ready
  cases ready

theorem insert_linked (hl : id ∈ s.roll.links) : s.roll.insert id = s.roll := by
  have hc : s.roll.links.contains id = true := by simpa using hl
  unfold Roll.insert
  rw [if_pos hc]

/-- Nothing else comes of a notice of a player who does not give up. -/
theorem meet_member (h : s.Coherent) (pits : s.room.Pits n.id y)
    (hn : ¬ Occasion.GivesUp (.notice now n) n.id) :
    s.meet seed (.notice now n) = s.heed now y n := by
  cases n with
  | lost id => exact absurd (.inr ⟨now, rfl⟩) hn
  | connected id =>
    have hl : id ∈ s.roll.links := h.member_linked pits.mem
    change (State.mk (s.roll.insert id) s.room s.heartbeat,
      [State.send ⟨s.roll.insert id, s.room, s.heartbeat⟩ id .accepted]) = _
    rw [insert_linked hl]
    change (s, [s.send id .accepted]) = _
    rw [send_linked hl]
    rfl
  | message id m =>
    have hl : id ∈ s.roll.links := h.member_linked pits.mem
    have hgone (hk : m.kind = .playerDead ∨ m.kind = .unregisterWithServer) : False :=
      hn (.inl ⟨now, m, rfl, hk⟩)
    rw [meet_message hl]
    simp only [heed]
    cases hk : m.kind with
    | registerWithServer => exact onRegister_registered (h.seated id pits.mem)
    | unregisterWithServer => exact absurd (.inr hk) hgone
    | playerDead => exact absurd (.inl hk) hgone
    | clientPing => exact congrArg (fun d => (s, [d])) (send_linked hl)
    | requestRoomJoin => exact onRoomJoin_acknowledged h (h.seated id pits.mem) (.inl pits.mem)
    | curMinoState | holdMinoState | previewMinoState | boardState | updatePlayer =>
      have hrelayed : m.kind.relayed = true := by simp [hk, Kind.relayed]
      exact congrArg (fun ds => (s, ds)) (relay_of_pits h pits hrelayed)
    | _ => rfl

/-- A player who is not being cut is asked for a sign of life. -/
def pinged (g : Registration) : Bool := g.validated && !g.closing

/-- A player who went silent and is not being cut already is cut. -/
def silenced (h : Heartbeat) (now : Time) (g : Registration) : Bool :=
  pinged g && h.isExpired g.lastPong now

/-- Only one element of a list without repetitions gives something. -/
theorem filterMap_only {α β : Type} {f : α → Option β} {l : List α} {z : α} (hn : l.Nodup)
    (hz : z ∈ l) (hf : ∀ i, i ≠ z → f i = none) : l.filterMap f = (f z).toList := by
  induction l with
  | nil => cases hz
  | cons i l ih =>
    obtain ⟨hi, hn⟩ := List.nodup_cons.mp hn
    by_cases h : i = z
    · subst i
      have hrest : l.filterMap f = [] := by
        rw [List.filterMap_eq_nil_iff]
        intro j hj
        exact hf j (ne_of_mem_of_not_mem hj hi)
      cases hfz : f z <;> simp [hfz, hrest]
    · have hz : z ∈ l := by
        rcases List.mem_cons.mp hz with rfl | hz
        · exact absurd rfl h
        · exact hz
      rw [List.filterMap_cons, hf i h, ih hn hz]

section

variable {order : List PlayerId} {g : Registration}

/-- What is done to each registered player that is visited, if only `x` and only under some condition,
is done once. -/
theorem visited_once (h : s.Coherent) (hn : order.Nodup) (hx : x ∈ order)
    (hg : s.roll.registration? x = some g) (p : Registration → Bool)
    (f : Registration → Option Link.Call) (hf : ∀ g, g.id ≠ x → f g = none) :
    ((order.filterMap s.roll.registration?).filter p).filterMap f =
      if p g then (f g).toList else [] := by
  rw [List.filterMap_filter, List.filterMap_filterMap, filterMap_only hn hx]
  · rw [hg]
    by_cases hp : p g = true <;> simp [hp]
  · intro i hi
    cases hgi : s.roll.registration? i with
    | none => rfl
    | some g' =>
      have hid : g'.id = i := (h.orderly.genuine _ (Table.mem_of_get? hgi)).2.1
      have hf' : f g' = none := hf g' (hid ▸ hi)
      simp [hf']

theorem checkLiveness_calls (h : s.Coherent) (thorough : (Occasion.check now order).Thorough s)
    (hg : s.roll.registration? x = some g) :
    (s.checkLiveness now order).2.filterMap (Deed.call? x) =
      (if (s.heartbeat.due now).1 && pinged g then [.send .serverPing] else []) ++
        if silenced (s.heartbeat.due now).2 now g then [.disconnect] else [] := by
  obtain ⟨hn, hall⟩ := thorough
  have hr : x ∈ s.roll.registrations.ids := Table.mem_ids_of_get? hg
  have hx : x ∈ order := hall x hr
  have hid : g.id = x := (h.orderly.genuine _ (Table.mem_of_get? hg)).2.1
  have hl : x ∈ s.roll.links := h.orderly.linked x hr
  let registrations := order.filterMap s.roll.registration?
  let silent := (s.heartbeat.due now).2.expired registrations now
  let roll := silent.foldl (fun roll id => roll.adjust id fun g => { g with closing := true }) s.roll
  let pings : List Deed := (registrations.filter pinged).map fun g => s.send g.id .serverPing
  let cuts : List Deed := (silent.filter roll.hasLink).map .cut
  have hpings : pings.filterMap (Deed.call? x) = if pinged g then [.send .serverPing] else [] := by
    rw [List.filterMap_map, visited_once h hn hx hg]
    · rw [Function.comp_apply, hid, send_linked hl]
      simp [Deed.call?]
    · intro g' hne
      rw [Function.comp_apply]
      unfold send
      split <;> simp [Deed.call?, hne]
  have hcuts : cuts.filterMap (Deed.call? x) =
      if silenced (s.heartbeat.due now).2 now g then [.disconnect] else [] := by
    have hlink : roll.hasLink x = true := by
      rw [Roll.hasLink_iff, Roll.adjustAll_links]
      exact hl
    have hout : silent = (registrations.filter (silenced (s.heartbeat.due now).2 now)).map (·.id) := rfl
    rw [List.filterMap_map, List.filterMap_filter, hout, List.filterMap_map,
      visited_once h hn hx hg]
    · simp [hid, hlink, Deed.call?]
    · intro g' hne
      simp [Deed.call?, hne]
  change ((if (s.heartbeat.due now).1 then pings else []) ++ cuts).filterMap (Deed.call? x) = _
  rw [List.filterMap_append, hcuts]
  cases (s.heartbeat.due now).1 with
  | false => rfl
  | true =>
    rw [if_pos rfl, hpings]
    rfl

theorem checkLiveness_registration (h : s.Coherent)
    (thorough : (Occasion.check now order).Thorough s) (hg : s.roll.registration? x = some g) :
    (s.checkLiveness now order).1.roll.registration? x =
      some (if silenced (s.heartbeat.due now).2 now g then { g with closing := true } else g) := by
  obtain ⟨hn, hall⟩ := thorough
  have hr : x ∈ s.roll.registrations.ids := Table.mem_ids_of_get? hg
  have hx : x ∈ order := hall x hr
  have hid : g.id = x := (h.orderly.genuine _ (Table.mem_of_get? hg)).2.1
  let silent := (s.heartbeat.due now).2.expired (order.filterMap s.roll.registration?) now
  have hsilent : x ∈ silent ↔ silenced (s.heartbeat.due now).2 now g = true := by
    constructor
    · intro hs
      obtain ⟨g', hg', hid'⟩ := List.mem_map.mp hs
      obtain ⟨hg', hp⟩ := List.mem_filter.mp hg'
      obtain ⟨i, -, hi⟩ := List.mem_filterMap.mp hg'
      have hi' : g'.id = i := (h.orderly.genuine _ (Table.mem_of_get? hi)).2.1
      rw [← hi', hid', hg] at hi
      cases hi
      exact hp
    · intro hs
      have hg' : g ∈ order.filterMap s.roll.registration? := List.mem_filterMap.mpr ⟨x, hx, hg⟩
      exact List.mem_map.mpr ⟨g, List.mem_filter.mpr ⟨hg', hs⟩, hid⟩
  change (silent.foldl (fun roll id => roll.adjust id fun r => { r with closing := true })
    s.roll).registration? x = _
  rw [Roll.registration?_adjustAll (f := fun g => { g with closing := true }) (fun _ => rfl), hg]
  by_cases hs : silenced (s.heartbeat.due now).2 now g = true
  · rw [if_pos (hsilent.mpr hs), if_pos hs]
    rfl
  · rw [if_neg (mt hsilent.mp hs), if_neg hs]

end

/-- The room is the same, and the books say the same of the two players. -/
structure Alike (a b : PlayerId) (s t : State) : Prop where
  room : t.room = s.room
  heartbeat : t.heartbeat = s.heartbeat
  link : ∀ x, x = a ∨ x = b → (x ∈ t.roll.links ↔ x ∈ s.roll.links)
  registration : ∀ x, x = a ∨ x = b → t.roll.registration? x = s.roll.registration? x

theorem heed_room : (s.heed now y n).1.room = s.room := by
  unfold heed
  split
  · rfl
  · split <;> rfl
  · rfl

theorem heed_opens_nothing : (s.heed now y n).2.filterMap Deed.pairing? = [] := by
  unfold heed
  split
  · rfl
  · split
    · rfl
    · rfl
    · rfl
    · dsimp only
      split <;> rfl
  · rfl

/-- What a notice of a player asks of the links does not depend on anything else in the hall. -/
theorem Alike.heed (h : Alike a b s t) (now : Time) (y : PlayerId) (n : Notice) :
    Alike a b (s.heed now y n).1 (t.heed now y n).1 ∧ (t.heed now y n).2 = (s.heed now y n).2 := by
  cases n with
  | connected id => exact ⟨h, rfl⟩
  | lost id => exact ⟨h, rfl⟩
  | message id m =>
    simp only [State.heed]
    cases hk : m.kind with
    | clientPong =>
      refine ⟨⟨h.room, h.heartbeat, h.link, ?_⟩, rfl⟩
      intro x hx
      change (t.roll.adjust id _).registration? x = (s.roll.adjust id _).registration? x
      rw [Roll.registration?_adjust, Roll.registration?_adjust, h.registration x hx]
    | _ => exact ⟨h, rfl⟩

theorem Alike.check {order order' : List PlayerId} (h : Alike a b s t) (hs : s.Coherent)
    (ht : t.Coherent) (pits : s.room.Pits a b) (thorough : (Occasion.check now order).Thorough s)
    (thorough' : (Occasion.check now order').Thorough t) :
    Alike a b (s.checkLiveness now order).1 (t.checkLiveness now order').1 ∧
      ∀ x, x = a ∨ x = b → (t.checkLiveness now order').2.filterMap (Deed.call? x) =
        (s.checkLiveness now order).2.filterMap (Deed.call? x) := by
  have hg (x : PlayerId) (hx : x = a ∨ x = b) : ∃ g, s.roll.registration? x = some g :=
    Table.exists_get? (hs.seated x (pits.mem_iff.mpr hx))
  refine ⟨⟨h.room, ?_, ?_, ?_⟩, ?_⟩
  · change (t.heartbeat.due now).2 = (s.heartbeat.due now).2
    rw [h.heartbeat]
  · intro x hx
    rw [checkLiveness_links, checkLiveness_links]
    exact h.link x hx
  · intro x hx
    obtain ⟨g, hg⟩ := hg x hx
    have hg' : t.roll.registration? x = some g := by rw [h.registration x hx, hg]
    rw [checkLiveness_registration hs thorough hg, checkLiveness_registration ht thorough' hg',
      h.heartbeat]
  · intro x hx
    obtain ⟨g, hg⟩ := hg x hx
    have hg' : t.roll.registration? x = some g := by rw [h.registration x hx, hg]
    rw [checkLiveness_calls hs thorough hg, checkLiveness_calls ht thorough' hg', h.heartbeat]

end State

namespace Course

variable {seeds : Nat → UInt64} {interval patience : Nat} {start : Time} {a b : PlayerId}
  {c d : Course} {os os' : List Occasion}

/-- Two courses that came to the same for the two players. -/
structure Alike (a b : PlayerId) (c d : Course) : Prop where
  hall : State.Alike a b c.hall d.hall
  made : d.made = c.made
  calls : ∀ x, x = a ∨ x = b →
    d.deeds.filterMap (Deed.call? x) = c.deeds.filterMap (Deed.call? x)

/-- An occasion that only one of the courses has leaves them alike if it does nothing to the two. -/
theorem Alike.leaveOut (h : Alike a b c d) (seeds : Nat → UInt64) (hc : c.hall.Coherent)
    (pits : c.hall.room.Pits a b) (now : Time) {n : Notice} (hn : n.id ≠ a ∧ n.id ≠ b) :
    Alike a b (c.next seeds (.notice now n)) d ∧
      (c.next seeds (.notice now n)).hall.room = c.hall.room := by
  have hm := State.meet_moves hc (seeds c.made) (.notice now n)
  rw [next_eq]
  obtain ⟨hroom, hheartbeat, hpairings, hplayers⟩ := hm.foreign pits hn
  refine ⟨⟨⟨?_, ?_, ?_, ?_⟩, ?_, ?_⟩, hroom⟩
  · exact h.hall.room.trans hroom.symm
  · exact h.hall.heartbeat.trans hheartbeat.symm
  · intro x hx
    exact (h.hall.link x hx).trans (hplayers x hx).link.symm
  · intro x hx
    exact (h.hall.registration x hx).trans (hplayers x hx).registration.symm
  · simp only [hpairings, List.length_nil, Nat.add_zero]
    exact h.made
  · intro x hx
    simp only [List.filterMap_append, (hplayers x hx).calls, List.append_nil]
    exact h.calls x hx

/-- A notice of one of the two comes to the same in both courses while the match goes on. -/
theorem Alike.keep (h : Alike a b c d) (hc : c.hall.Coherent) (hd : d.hall.Coherent)
    (pits : c.hall.room.Pits a b) {now : Time} {n : Notice} (hn : n.id = a ∨ n.id = b)
    (ready : (c.next seeds (.notice now n)).hall.room.phase = .ready) :
    Alike a b (c.next seeds (.notice now n)) (d.next seeds (.notice now n)) ∧
      (c.next seeds (.notice now n)).hall.room = c.hall.room := by
  obtain ⟨y, own⟩ : ∃ y, c.hall.room.Pits n.id y := by
    rcases hn with hn | hn
    · exact ⟨b, hn ▸ pits⟩
    · exact ⟨a, hn ▸ pits.symm⟩
  have own' : d.hall.room.Pits n.id y := h.hall.room ▸ own
  rw [next_eq] at ready
  have hstays := State.not_givesUp_of_ready hc own ready
  obtain ⟨hhall, hdeeds⟩ := h.hall.heed now y n
  rw [next_eq, next_eq, State.meet_member hc own hstays, State.meet_member hd own' hstays]
  refine ⟨⟨hhall, ?_, ?_⟩, State.heed_room⟩
  · simp only [State.heed_opens_nothing, h.made]
  · intro x hx
    simp only [List.filterMap_append, hdeeds, h.calls x hx]

theorem Alike.check (h : Alike a b c d) (seeds : Nat → UInt64) (hc : c.hall.Coherent)
    (hd : d.hall.Coherent) (pits : c.hall.room.Pits a b) {now : Time} {order order' : List PlayerId}
    (thorough : (Occasion.check now order).Thorough c.hall)
    (thorough' : (Occasion.check now order').Thorough d.hall) :
    Alike a b (c.next seeds (.check now order)) (d.next seeds (.check now order')) := by
  obtain ⟨hhall, hcalls⟩ := h.hall.check hc hd pits thorough thorough'
  rw [next_eq, next_eq]
  refine ⟨hhall, ?_, ?_⟩
  · change d.made + ((d.hall.checkLiveness now order').2.filterMap Deed.pairing?).length =
      c.made + ((c.hall.checkLiveness now order).2.filterMap Deed.pairing?).length
    rw [State.checkLiveness_opens_nothing, State.checkLiveness_opens_nothing, h.made]
  · intro x hx
    change (d.deeds ++ (d.hall.checkLiveness now order').2).filterMap (Deed.call? x) =
      (c.deeds ++ (c.hall.checkLiveness now order).2).filterMap (Deed.call? x)
    rw [List.filterMap_append, List.filterMap_append, h.calls x hx, hcalls x hx]

/-- While the match goes on, courses with and without the others stay alike. -/
theorem Alike.run (without : Without a b os os') (h : Alike a b c d) (hc : c.hall.Coherent)
    (hd : d.hall.Coherent) (pits : c.hall.room.Pits a b) (lasts : c.Lasts seeds os)
    (thorough : c.Thorough seeds os) (thorough' : d.Thorough seeds os') :
    Alike a b (c.run seeds os) (d.run seeds os') := by
  induction without generalizing c d with
  | nil => exact h
  | @leaveOut now n os os' foreign rest ih =>
    obtain ⟨halike, hroom⟩ := h.leaveOut seeds hc pits now foreign
    exact ih halike (next_coherent hc _) hd (hroom ▸ pits) lasts.2 thorough.2 thorough'
  | @keep now n os os' own rest ih =>
    obtain ⟨halike, hroom⟩ := h.keep hc hd pits own lasts.2.ready
    exact ih halike (next_coherent hc _) (next_coherent hd _) (hroom ▸ pits) lasts.2 thorough.2
      thorough'.2
  | @check now order order' os os' rest ih =>
    have halike := h.check seeds hc hd pits thorough.1 thorough'.1
    exact ih halike (next_coherent hc _) (next_coherent hd _) pits lasts.2 thorough.2 thorough'.2

/-- While a match of `a` and `b` goes on, nothing that the others do is to be noticed by the two. With
all their notices left out, whatever they were, the room, its match and its seed are the same, no seed
is made, the hall has the same links and registrations of `a` and of `b`, and has asked the same of
their links: the same messages in the same order, and the same closes. -/
theorem outsiders_unnoticed (seeds : Nat → UInt64) (interval patience : Nat) (start : Time)
    (past os os' : List Occasion) (a b : PlayerId)
    (pits : ((opened interval patience start).run seeds past).hall.room.Pits a b)
    (lasts : ((opened interval patience start).run seeds past).Lasts seeds os)
    (without : Without a b os os')
    (thorough : ((opened interval patience start).run seeds past).Thorough seeds os)
    (thorough' : ((opened interval patience start).run seeds past).Thorough seeds os') :
    let w := ((opened interval patience start).run seeds past).run seeds os
    let w' := ((opened interval patience start).run seeds past).run seeds os'
    w'.hall.room = w.hall.room ∧ w'.made = w.made ∧
      ∀ x, x = a ∨ x = b →
        (x ∈ w'.hall.roll.links ↔ x ∈ w.hall.roll.links) ∧
        w'.hall.roll.registration? x = w.hall.roll.registration? x ∧
        w'.deeds.filterMap (Deed.call? x) = w.deeds.filterMap (Deed.call? x) := by
  intro w w'
  have hc : ((opened interval patience start).run seeds past).hall.Coherent := coherent_run past
  have hsame : Alike a b ((opened interval patience start).run seeds past)
      ((opened interval patience start).run seeds past) :=
    ⟨⟨rfl, rfl, fun _ _ => Iff.rfl, fun _ _ => rfl⟩, rfl, fun _ _ => rfl⟩
  have halike : Alike a b w w' := .run without hsame hc hc pits lasts thorough thorough'
  refine ⟨halike.hall.room, halike.made, fun x hx => ⟨?_, ?_, ?_⟩⟩
  · exact halike.hall.link x hx
  · exact halike.hall.registration x hx
  · exact halike.calls x hx

/-- While `1` and `2` play, a third player comes, registers, claims to have died, asks to join and is
lost. The registrations may be looked at in another order. -/
theorem third_unnoticed :
    let seeds : Nat → UInt64 := fun _ => 7
    let c := (opened 5 50 0).run seeds
      [.notice 0 (.connected 1), .notice 0 (.connected 2),
        .notice 1 (.message 1 (.register ⟨0, 3⟩)), .notice 1 (.message 2 (.register ⟨0, 4⟩)),
        .notice 2 (.message 1 .requestRoomJoin), .notice 2 (.message 2 .requestRoomJoin)]
    let w := c.run seeds
      [.check 6 [1, 2], .notice 7 (.connected 3), .notice 7 (.message 3 (.register ⟨1, 5⟩)),
        .notice 8 (.message 3 (.playerDead 1)), .notice 8 (.message 3 .requestRoomJoin),
        .notice 9 (.message 1 (.falling .none)), .check 60 [1, 3, 2], .notice 61 (.lost 3)]
    let w' := c.run seeds [.check 6 [2, 1], .notice 9 (.message 1 (.falling .none)), .check 60 [2, 1]]
    w'.hall.room = w.hall.room ∧ w'.made = w.made ∧
      ∀ x, x = 1 ∨ x = 2 →
        (x ∈ w'.hall.roll.links ↔ x ∈ w.hall.roll.links) ∧
        w'.hall.roll.registration? x = w.hall.roll.registration? x ∧
        w'.deeds.filterMap (Deed.call? x) = w.deeds.filterMap (Deed.call? x) :=
  outsiders_unnoticed (fun _ => 7) 5 50 0
    [.notice 0 (.connected 1), .notice 0 (.connected 2),
      .notice 1 (.message 1 (.register ⟨0, 3⟩)), .notice 1 (.message 2 (.register ⟨0, 4⟩)),
      .notice 2 (.message 1 .requestRoomJoin), .notice 2 (.message 2 .requestRoomJoin)]
    [.check 6 [1, 2], .notice 7 (.connected 3), .notice 7 (.message 3 (.register ⟨1, 5⟩)),
      .notice 8 (.message 3 (.playerDead 1)), .notice 8 (.message 3 .requestRoomJoin),
      .notice 9 (.message 1 (.falling .none)), .check 60 [1, 3, 2], .notice 61 (.lost 3)]
    [.check 6 [2, 1], .notice 9 (.message 1 (.falling .none)), .check 60 [2, 1]]
    1 2 ⟨by decide, by decide, .inl (by decide)⟩ (by decide)
    (.check _ _ (.leaveOut (by decide) (.leaveOut (by decide) (.leaveOut (by decide)
      (.leaveOut (by decide) (.keep (by decide) (.check _ _ (.leaveOut (by decide) .nil))))))))
    (by decide) (by decide)

end Course
end BlockDuel.Hall
