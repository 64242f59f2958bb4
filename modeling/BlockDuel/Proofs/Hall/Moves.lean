import BlockDuel.Proofs.Hall.Course
import BlockDuel.Proofs.Hall.Roll
import BlockDuel.Proofs.Hall.Room

/-!
Everything that a hall can do in one occasion, as a relation between the state before, the state after
and the deeds. The relation is what the handlers amount to while the books of the hall agree with each
other; what a hall keeps up over a whole course is proved on it, one case for each thing a hall does.
-/
namespace BlockDuel.Hall
open Wire

namespace State

/-- The roll is in order, the room has one of its shapes, and only registered players are in it. -/
structure Coherent (s : State) : Prop where
  orderly : s.roll.Orderly
  room : s.room.Sound
  seated : ∀ id ∈ s.room.members, id ∈ s.roll.registrations.ids

/-- What becomes of a room and what is done when `id` leaves it. `tell` is how the leaver is told. -/
inductive Leaves (tell : Message → Deed) (id : PlayerId) : Room → Room → List Deed → Prop
  | stranger {r : Room} (out : id ∉ r.members) : Leaves tell id r r []
  | alone : Leaves tell id ⟨[id], .waitingForSecond, none⟩ .fresh []
  | concedes {r : Room} {y : PlayerId} (pits : r.Pits id y) :
      Leaves tell id r .fresh
        [.rules ⟨y, id⟩, .post y (.gameOver ⟨y, id⟩), tell (.gameOver ⟨y, id⟩),
          .post y (.roomPlayerLeft id)]

/-- What a hall can do in one occasion. -/
inductive Moves (s : State) (seed : UInt64) : Occasion → State → List Deed → Prop
  | idles {now : Time} {id : PlayerId} {m : Message} : Moves s seed (.notice now (.message id m)) s []
  | admits {now : Time} {id : PlayerId} :
      Moves s seed (.notice now (.connected id)) { s with roll := s.roll.insert id }
        [.post id .accepted]
  | registers {now : Time} {id : PlayerId} {m : Message} {p : Player}
      (link : id ∈ s.roll.links) (new : id ∉ s.roll.registrations.ids)
      (kind : m.kind = .registerWithServer) (player : m.read? Player = some p) :
      Moves s seed (.notice now (.message id m))
        { s with roll := { s.roll with
            registrations := s.roll.registrations.put id ⟨id, true, now, { p with id := id }, false⟩ } }
        [.post id (.assignId id)]
  | hearsPong {now : Time} {id : PlayerId} {m : Message} (kind : m.kind = .clientPong) :
      Moves s seed (.notice now (.message id m))
        { s with roll := s.roll.adjust id fun g => { g with lastPong := now } } []
  | answersPing {now : Time} {id : PlayerId} {m : Message}
      (link : id ∈ s.roll.links) (kind : m.kind = .clientPing) :
      Moves s seed (.notice now (.message id m)) s [.post id .serverPong]
  | acknowledges {now : Time} {id : PlayerId} {m : Message}
      (registered : id ∈ s.roll.registrations.ids) (kind : m.kind = .requestRoomJoin) :
      Moves s seed (.notice now (.message id m)) s [.post id .roomJoinAccepted]
  | seats {now : Time} {id : PlayerId} {m : Message} {g : Registration}
      (registered : s.roll.registration? id = some g) (kind : m.kind = .requestRoomJoin)
      (room : s.room = .fresh) :
      Moves s seed (.notice now (.message id m))
        { s with room := ⟨[id], .waitingForSecond, none⟩ }
        [.post id .roomJoinAccepted, .post id (.roomPlayerList [g.player])]
  | pairs {now : Time} {a id : PlayerId} {m : Message} {ga g : Registration}
      (waiting : s.roll.registration? a = some ga) (registered : s.roll.registration? id = some g)
      (kind : m.kind = .requestRoomJoin) (ne : a ≠ id)
      (room : s.room = ⟨[a], .waitingForSecond, none⟩) :
      Moves s seed (.notice now (.message id m)) { s with room := ⟨[a, id], .ready, some seed⟩ }
        [.post id .roomJoinAccepted, .post id (.roomPlayerList [ga.player, g.player]),
          .post a (.roomPlayerJoined g.player), .opens [a, id] seed,
          .post a (.bagSeed seed), .post a .allPlayersReady,
          .post id (.bagSeed seed), .post id .allPlayersReady]
  | relays {now : Time} {x y : PlayerId} {m : Message} (pits : s.room.Pits x y)
      (kind : m.kind.relayed = true) :
      Moves s seed (.notice now (.message x m)) s [.post y m]
  | rules {now : Time} {x y : PlayerId} {m : Message} (pits : s.room.Pits x y)
      (kind : m.kind = .playerDead) :
      Moves s seed (.notice now (.message x m)) { s with room := .fresh }
        [.rules ⟨y, x⟩, .post y (.gameOver ⟨y, x⟩), .post x (.gameOver ⟨y, x⟩)]
  | dismisses {now : Time} {id : PlayerId} {m : Message} {room : Room} {ds : List Deed}
      (registered : id ∈ s.roll.registrations.ids) (kind : m.kind = .unregisterWithServer)
      (leaves : Leaves (.post id) id s.room room ds) :
      Moves s seed (.notice now (.message id m)) { s with roll := (s.roll.withdraw id).2, room := room }
        (ds ++ [.finish id])
  | loses {now : Time} {id : PlayerId} {room : Room} {ds : List Deed} (link : id ∈ s.roll.links)
      (leaves : Leaves (.miss id) id s.room room ds) :
      Moves s seed (.notice now (.lost id)) { s with roll := (s.roll.remove id).2, room := room } ds
  | losesNothing {now : Time} {id : PlayerId} (absent : id ∉ s.roll.links) :
      Moves s seed (.notice now (.lost id)) s []
  | checks {now : Time} {order : List PlayerId} :
      Moves s seed (.check now order) (s.checkLiveness now order).1 (s.checkLiveness now order).2

variable {s : State} {seed : UInt64} {now : Time} {id : PlayerId} {m : Message}

theorem send_linked (h : id ∈ s.roll.links) : s.send id m = .post id m := by
  have hl := Roll.hasLink_iff.mpr h
  simp [send, hl]

theorem send_unlinked (h : id ∉ s.roll.links) : s.send id m = .miss id m := by
  have hl := Roll.hasLink_eq_false_iff.mpr h
  simp [send, hl]

theorem arbitrate_of_pits {x y : PlayerId} (h : s.room.Pits x y) :
    s.arbitrate x = some ({ s with room := .fresh },
      [.rules ⟨y, x⟩, s.send y (.gameOver ⟨y, x⟩), s.send x (.gameOver ⟨y, x⟩)]) := by
  unfold arbitrate
  rw [h.arbitrate]
  rfl

theorem arbitrate_of_not_playing (h : s.room.phase = .ready → id ∉ s.room.members) :
    s.arbitrate id = none := by
  unfold arbitrate
  rw [Room.arbitrate_of_not_playing h]

/-- Leaving the room changes nothing but the room. -/
theorem leaveRoom_leaves (s : State) (id : PlayerId) (hr : s.room.Sound)
    (hl : ∀ y ∈ s.room.members, y ≠ id → y ∈ s.roll.links) :
    ∃ room, (s.leaveRoom id).1 = { s with room := room } ∧
      Leaves (s.send id) id s.room room (s.leaveRoom id).2 := by
  by_cases hm : id ∈ s.room.members
  · have hi := Room.isMember_iff.mpr hm
    by_cases hp : s.room.phase = .ready
    · obtain ⟨y, pits⟩ := hr.pits hp hm
      have hy : y ∈ s.roll.links := hl y pits.symm.mem pits.ne.symm
      refine ⟨.fresh, ?_, ?_⟩
      · simp [leaveRoom, hi, arbitrate_of_pits pits]
      · have hleft : (s.leaveRoom id).2 = [.rules ⟨y, id⟩, s.send y (.gameOver ⟨y, id⟩),
            s.send id (.gameOver ⟨y, id⟩), s.send y (.roomPlayerLeft id)] := by
          simp [leaveRoom, hi, arbitrate_of_pits pits, pits.other?]
          rfl
        rw [hleft, send_linked hy, send_linked hy]
        exact .concedes pits
    · have hw := hr.eq_waiting hp hm
      have hn : s.arbitrate id = none := arbitrate_of_not_playing fun h => absurd h hp
      have ho : s.room.other? id = none := by simp [hw, Room.other?]
      have he : (s.room.leave id).2 = .fresh := by rw [hw, Room.leave_waiting]
      have hleft : s.leaveRoom id = ({ s with room := .fresh }, []) := by
        simp [leaveRoom, hi, hn, ho, he]
      rw [hleft, hw]
      exact ⟨.fresh, rfl, .alone⟩
  · have hi : s.room.isMember id = false := by simpa [Room.isMember] using hm
    have hleft : s.leaveRoom id = (s, []) := by simp [leaveRoom, hi]
    rw [hleft]
    exact ⟨s.room, rfl, .stranger hm⟩

theorem onRegister_unread (hp : m.read? Player = none) : s.onRegister now id m = (s, []) := by
  simp only [onRegister, hp]

theorem onRegister_registered (hr : id ∈ s.roll.registrations.ids) :
    s.onRegister now id m = (s, []) := by
  cases hp : m.read? Player with
  | none => exact onRegister_unread hp
  | some p => simp only [onRegister, hp, Roll.register_repeated hr]

theorem onRegister_new {p : Player} (hl : id ∈ s.roll.links) (hn : id ∉ s.roll.registrations.ids)
    (hp : m.read? Player = some p) :
    s.onRegister now id m =
      ({ s with roll := { s.roll with
          registrations := s.roll.registrations.put id ⟨id, true, now, { p with id := id }, false⟩ } },
        [.post id (.assignId id)]) := by
  simp only [onRegister, hp, Roll.register_new hl hn]
  rw [send_linked]
  exact hl

theorem onRegister_moves (hl : id ∈ s.roll.links) (hk : m.kind = .registerWithServer) :
    Moves s seed (.notice now (.message id m)) (s.onRegister now id m).1
      (s.onRegister now id m).2 := by
  cases hp : m.read? Player with
  | none =>
    rw [onRegister_unread hp]
    exact .idles
  | some p =>
    by_cases hn : id ∈ s.roll.registrations.ids
    · rw [onRegister_registered hn]
      exact .idles
    · rw [onRegister_new hl hn hp]
      exact .registers hl hn hk hp

/-- Every member of the room can be reached. -/
theorem Coherent.member_linked (h : s.Coherent) (hm : id ∈ s.room.members) : id ∈ s.roll.links :=
  h.orderly.linked id (h.seated id hm)

/-- A registered player is taken off the roll, out of the room, and the link closes after that. -/
theorem onUnregister_registered (h : s.Coherent) (hr : id ∈ s.roll.registrations.ids) :
    ∃ room ds, s.onUnregister id =
        ({ s with roll := (s.roll.withdraw id).2, room := room }, ds ++ [.finish id]) ∧
      Leaves (.post id) id s.room room ds := by
  have hl := h.orderly.linked id hr
  have hg : ∃ g, s.roll.registration? id = some g := Table.exists_get? hr
  obtain ⟨g, hg⟩ := hg
  have hlink := Roll.hasLink_iff.mpr hl
  let s' : State := { s with roll := (s.roll.withdraw id).2 }
  obtain ⟨room, hroom, leaves⟩ := leaveRoom_leaves s' id h.room fun y hy _ => h.member_linked hy
  have htell : s'.send id = .post id := by
    funext m
    exact send_linked hl
  rw [htell] at leaves
  refine ⟨room, (s'.leaveRoom id).2, ?_, leaves⟩
  unfold onUnregister
  simp only [Roll.withdraw, hg]
  change ((s'.leaveRoom id).1,
    (s'.leaveRoom id).2 ++ if (s'.leaveRoom id).1.roll.hasLink id then [.finish id] else []) = _
  rw [hroom]
  change (_, (s'.leaveRoom id).2 ++ if s.roll.hasLink id then [.finish id] else []) = _
  rw [if_pos hlink]
  rfl

theorem onUnregister_stranger (hr : id ∉ s.roll.registrations.ids) :
    s.onUnregister id = (s, []) := by
  have hn : s.roll.registration? id = none := Table.get?_eq_none_iff.mpr hr
  simp only [onUnregister, Roll.withdraw, hn]

theorem onUnregister_moves (h : s.Coherent) (hk : m.kind = .unregisterWithServer) :
    Moves s seed (.notice now (.message id m)) (s.onUnregister id).1 (s.onUnregister id).2 := by
  by_cases hr : id ∈ s.roll.registrations.ids
  · obtain ⟨room, ds, hout, leaves⟩ := onUnregister_registered h hr
    rw [hout]
    exact .dismisses hr hk leaves
  · rw [onUnregister_stranger hr]
    exact .idles

theorem onRoomJoin_stranger (hr : id ∉ s.roll.registrations.ids) :
    Id.run (s.onRoomJoinM (pure seed) id) = (s, []) := by
  have hn : s.roll.registration? id = none := Table.get?_eq_none_iff.mpr hr
  have hv : s.roll.isValidated id = false := by simp [Roll.isValidated, hn]
  unfold onRoomJoinM
  rw [hv]
  rfl

/-- The room answers a registered player. -/
theorem onRoomJoin_registered (h : s.Coherent) (hr : id ∈ s.roll.registrations.ids) :
    Id.run (s.onRoomJoinM (pure seed) id) = s.afterJoin id (s.room.join id seed) := by
  obtain ⟨g, hg⟩ : ∃ g, s.roll.registration? id = some g := Table.exists_get? hr
  have hv : s.roll.isValidated id = true := by
    rw [Roll.isValidated_of_registration hg]
    exact (h.orderly.genuine _ (Table.mem_of_get? hg)).1
  unfold onRoomJoinM
  rw [hv]
  rfl

/-- Who is in the room already, or comes during a match, is told that the request arrived. -/
theorem onRoomJoin_acknowledged (h : s.Coherent) (hr : id ∈ s.roll.registrations.ids)
    (hm : id ∈ s.room.members ∨ s.room.phase = .ready) :
    Id.run (s.onRoomJoinM (pure seed) id) = (s, [.post id .roomJoinAccepted]) := by
  rw [onRoomJoin_registered h hr, ← send_linked (h.orderly.linked id hr)]
  by_cases hin : id ∈ s.room.members
  · rw [Room.join_member hin]
    rfl
  · rw [Room.join_ready (hm.resolve_left hin) hin]
    rfl

theorem seated_moves {g : Registration} (hl : id ∈ s.roll.links) (hroom : s.room = .fresh)
    (hg : s.roll.registration? id = some g) (hk : m.kind = .requestRoomJoin) :
    Moves s seed (.notice now (.message id m)) (s.afterJoin id (s.room.join id seed)).1
      (s.afterJoin id (s.room.join id seed)).2 := by
  let s' : State := { s with room := ⟨[id], .waitingForSecond, none⟩ }
  have hroster : s'.roster = [g.player] := by
    change ([id].filterMap s.roll.registration?).map (·.player) = _
    simp [hg]
  have hsend (m : Message) : s'.send id m = .post id m := send_linked hl
  rw [hroom, Room.join_fresh]
  change Moves s seed _ s' [s'.send id .roomJoinAccepted, s'.send id (.roomPlayerList s'.roster)]
  rw [hsend, hsend, hroster]
  exact .seats hg hk hroom

theorem paired_moves {a : PlayerId} {ga g : Registration} (hla : a ∈ s.roll.links)
    (hl : id ∈ s.roll.links) (hne : id ≠ a) (hroom : s.room = ⟨[a], .waitingForSecond, none⟩)
    (hga : s.roll.registration? a = some ga) (hg : s.roll.registration? id = some g)
    (hk : m.kind = .requestRoomJoin) :
    Moves s seed (.notice now (.message id m)) (s.afterJoin id (s.room.join id seed)).1
      (s.afterJoin id (s.room.join id seed)).2 := by
  let s' : State := { s with room := ⟨[a, id], .ready, some seed⟩ }
  have hroster : s'.roster = [ga.player, g.player] := by
    change ([a, id].filterMap s.roll.registration?).map (·.player) = _
    simp [hga, hg]
  have hsend (m : Message) : s'.send id m = .post id m := send_linked hl
  have hsenda (m : Message) : s'.send a m = .post a m := send_linked hla
  have hintroduce : s'.introduce id (some a) = [.post a (.roomPlayerJoined g.player)] := by
    have hg' : s'.roll.registration? id = some g := hg
    simp [introduce, hg', hsenda]
  rw [hroom, Room.join_waiting hne]
  change Moves s seed _ s' (s'.send id .roomJoinAccepted ::
    s'.send id (.roomPlayerList s'.roster) :: (s'.introduce id (some a) ++
      [.opens [a, id] seed, s'.send a (.bagSeed seed), s'.send a .allPlayersReady,
        s'.send id (.bagSeed seed), s'.send id .allPlayersReady]))
  rw [hintroduce, hroster]
  simp only [hsend, hsenda]
  exact .pairs hga hg hk hne.symm hroom

/-- A player who is not in the room is let in unless a match is running. -/
theorem admitted_moves {g : Registration} (h : s.Coherent) (hm : id ∉ s.room.members)
    (hp : s.room.phase ≠ .ready) (hg : s.roll.registration? id = some g)
    (hk : m.kind = .requestRoomJoin) :
    Moves s seed (.notice now (.message id m)) (s.afterJoin id (s.room.join id seed)).1
      (s.afterJoin id (s.room.join id seed)).2 := by
  have hl : id ∈ s.roll.links := h.orderly.linked id (Table.mem_ids_of_get? hg)
  cases hs : s.room.members with
  | nil => exact seated_moves hl (h.room.eq_fresh hs) hg hk
  | cons a rest =>
    have ha : a ∈ s.room.members := by simp [hs]
    have hne : id ≠ a := (ne_of_mem_of_not_mem ha hm).symm
    obtain ⟨ga, hga⟩ : ∃ ga, s.roll.registration? a = some ga := Table.exists_get? (h.seated a ha)
    exact paired_moves (h.member_linked ha) hl hne (h.room.eq_waiting hp ha) hga hg hk

theorem onRoomJoin_moves (h : s.Coherent) (hk : m.kind = .requestRoomJoin) :
    Moves s seed (.notice now (.message id m)) (Id.run (s.onRoomJoinM (pure seed) id)).1
      (Id.run (s.onRoomJoinM (pure seed) id)).2 := by
  by_cases hr : id ∈ s.roll.registrations.ids
  · by_cases hm : id ∈ s.room.members ∨ s.room.phase = .ready
    · rw [onRoomJoin_acknowledged h hr hm]
      exact .acknowledges hr hk
    · obtain ⟨hout, hp⟩ := not_or.mp hm
      obtain ⟨g, hg⟩ : ∃ g, s.roll.registration? id = some g := Table.exists_get? hr
      rw [onRoomJoin_registered h hr]
      exact admitted_moves h hout hp hg hk
  · rw [onRoomJoin_stranger hr]
    exact .idles

theorem onPlayerDead_of_not_playing (hn : s.room.phase = .ready → id ∉ s.room.members) :
    s.onPlayerDead id = (s, []) := by
  unfold onPlayerDead
  rw [arbitrate_of_not_playing hn]
  rfl

theorem onPlayerDead_of_pits {x y : PlayerId} (h : s.Coherent) (pits : s.room.Pits x y) :
    s.onPlayerDead x = ({ s with room := .fresh },
      [.rules ⟨y, x⟩, .post y (.gameOver ⟨y, x⟩), .post x (.gameOver ⟨y, x⟩)]) := by
  unfold onPlayerDead
  rw [arbitrate_of_pits pits, send_linked (h.member_linked pits.symm.mem),
    send_linked (h.member_linked pits.mem)]
  rfl

theorem onPlayerDead_moves (h : s.Coherent) (hk : m.kind = .playerDead) :
    Moves s seed (.notice now (.message id m)) (s.onPlayerDead id).1 (s.onPlayerDead id).2 := by
  by_cases hp : s.room.phase = .ready ∧ id ∈ s.room.members
  · obtain ⟨y, pits⟩ := h.room.pits hp.1 hp.2
    rw [onPlayerDead_of_pits h pits]
    exact .rules pits hk
  · rw [onPlayerDead_of_not_playing fun hr hm => hp ⟨hr, hm⟩]
    exact .idles

theorem relay_of_pits {x y : PlayerId} (h : s.Coherent) (pits : s.room.Pits x y)
    (hk : m.kind.relayed = true) : s.relay x m = [.post y m] := by
  simp only [relay, pits.route hk]
  rw [send_linked (h.member_linked pits.symm.mem)]

theorem relay_of_not_playing (hn : s.room.phase = .ready → id ∉ s.room.members) :
    s.relay id m = [] := by
  obtain ⟨reason, hd⟩ := Room.route_of_not_playing (k := m.kind) hn
  simp only [relay, hd]

theorem relay_moves (h : s.Coherent) (hk : m.kind.relayed = true) :
    Moves s seed (.notice now (.message id m)) s (s.relay id m) := by
  by_cases hp : s.room.phase = .ready ∧ id ∈ s.room.members
  · obtain ⟨y, pits⟩ := h.room.pits hp.1 hp.2
    rw [relay_of_pits h pits hk]
    exact .relays pits hk
  · rw [relay_of_not_playing fun hr hm => hp ⟨hr, hm⟩]
    exact .idles

theorem onLost_moves (h : s.Coherent) :
    Moves s seed (.notice now (.lost id)) (s.onLost id).1 (s.onLost id).2 := by
  unfold onLost
  by_cases hl : id ∈ s.roll.links
  · have hlink := Roll.hasLink_iff.mpr hl
    let s' : State := { s with roll := (s.roll.remove id).2 }
    obtain ⟨room, hroom, leaves⟩ := leaveRoom_leaves s' id h.room fun y hy hne =>
      Roll.mem_links_remove.mpr ⟨h.member_linked hy, hne⟩
    have htell : s'.send id = .miss id := by
      funext m
      apply send_unlinked
      intro hi
      exact (Roll.mem_links_remove.mp hi).2 rfl
    rw [htell] at leaves
    simp only [Roll.remove, hlink]
    change Moves s seed _ (s'.leaveRoom id).1 (s'.leaveRoom id).2
    rw [hroom]
    exact .loses hl leaves
  · have hlink := Roll.hasLink_eq_false_iff.mpr hl
    have hr : id ∉ s.roll.registrations.ids := fun hr => hl (h.orderly.linked id hr)
    have hs := Roll.remove_absent hl hr
    simp only [Roll.remove, hlink] at hs ⊢
    rw [hs]
    exact .losesNothing hl

/-- A look after the silent players pings some of them and cuts some links. -/
theorem checkLiveness_deeds {order : List PlayerId} {d : Deed}
    (hd : d ∈ (s.checkLiveness now order).2) :
    ∃ id, d = s.send id .serverPing ∨ id ∈ s.roll.links ∧ d = .cut id := by
  rcases List.mem_append.mp hd with hd | hd
  · split at hd
    · obtain ⟨g, -, rfl⟩ := List.mem_map.mp hd
      exact ⟨g.id, .inl rfl⟩
    · cases hd
  · obtain ⟨id, hid, rfl⟩ := List.mem_map.mp hd
    have hl := Roll.hasLink_iff.mp (List.mem_filter.mp hid).2
    rw [Roll.adjustAll_links] at hl
    exact ⟨id, .inr ⟨hl, rfl⟩⟩

/-- A message over a link goes to the handler of its kind. -/
theorem meet_message (hl : id ∈ s.roll.links) :
    s.meet seed (.notice now (.message id m)) =
      match m.kind with
      | .registerWithServer => s.onRegister now id m
      | .unregisterWithServer => s.onUnregister id
      | .clientPong => ({ s with roll := s.roll.adjust id fun g => { g with lastPong := now } }, [])
      | .clientPing => (s, [s.send id .serverPong])
      | .requestRoomJoin => Id.run (s.onRoomJoinM (pure seed) id)
      | .playerDead => s.onPlayerDead id
      | k => (s, if k.relayed then s.relay id m else []) := by
  have hlink := Roll.hasLink_iff.mpr hl
  simp only [meet, meetM, handleM, onMessageM, hlink, Bool.not_true, Bool.false_eq_true, if_false]
  generalize m.kind = k
  cases k <;> rfl

/-- What comes without a link is not heard. -/
theorem meet_unlinked (hl : id ∉ s.roll.links) :
    s.meet seed (.notice now (.message id m)) = (s, []) := by
  have hlink := Roll.hasLink_eq_false_iff.mpr hl
  simp only [meet, meetM, handleM, onMessageM, hlink]
  rfl

/-- A hall with coherent books does nothing else. -/
theorem meet_moves (h : s.Coherent) (seed : UInt64) (o : Occasion) :
    Moves s seed o (s.meet seed o).1 (s.meet seed o).2 := by
  cases o with
  | check now order => exact .checks
  | notice now n =>
    cases n with
    | connected id =>
      have hl : id ∈ (s.roll.insert id).links := Roll.mem_links_insert.mpr (.inr rfl)
      change Moves s seed _ _ [State.send { s with roll := s.roll.insert id } id .accepted]
      rw [send_linked hl]
      exact .admits
    | lost id => exact onLost_moves h
    | message id m =>
      by_cases hl : id ∈ s.roll.links
      · rw [meet_message hl]
        split
        · next hk => exact onRegister_moves hl hk
        · next hk => exact onUnregister_moves h hk
        · next hk => exact .hearsPong hk
        · next hk =>
          rw [send_linked hl]
          exact .answersPing hl hk
        · next hk => exact onRoomJoin_moves h hk
        · next hk => exact onPlayerDead_moves h hk
        · split
          · next hk => exact relay_moves h hk
          · exact .idles
      · rw [meet_unlinked hl]
        exact .idles

end State
end BlockDuel.Hall
