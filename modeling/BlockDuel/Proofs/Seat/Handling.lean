import BlockDuel.Seat.Joining

/-!
What comes of one message to a player who joins. A message is answered, changes the stage, is kept in mind or
is ignored; an answer that cannot be sent ends the joining. Nothing else follows from a message, and where it
stood in the inbox plays no part.
-/
namespace BlockDuel.Seat
open Wire

namespace Joining

variable {j j' : Joining} {s s' : Session} {m : Message} {now : Nat}

/-- A player who joins makes something of a message. -/
def heeds (j : Joining) (s : Session) (m : Message) : Bool :=
  match m.kind with
  | .serverPing => true
  | .accepted => j.status = .awaitAccepted
  | .assignId => j.status = .registering && (m.read? UInt32).isSome
  | .roomJoinAccepted => j.status = .joining
  | .roomPlayerList => (m.read? (List Player)).isSome
  | .roomPlayerJoined => (m.read? Player).isSome
  | .roomPlayerLeft => (m.read? UInt32).isSome
  | .sendBagSeed => (m.read? UInt64).isSome
  | .allPlayersReady => j.seed.isSome && s.playerId.isSome
  | _ => false

/-- The messages that tell who is in the room. -/
def tellsRoster : Kind → Bool
  | .roomPlayerList | .roomPlayerJoined | .roomPlayerLeft => true
  | _ => false

/-- The messages that call for an answer. -/
def wantsAnswer : Kind → Bool
  | .serverPing | .accepted | .assignId => true
  | _ => false

/-- What comes of a message. -/
inductive Effect (j : Joining) (s : Session) (m : Message) (now : Nat) : Joining → Session → Prop
  | ponged (hk : m.kind = .serverPing) (hc : s.isConnected = true) :
    Effect j s m now j { s with outgoing := s.outgoing ++ [.clientPong] }
  | greeted (hk : m.kind = .accepted) (hj : j.status = .awaitAccepted) (hc : s.isConnected = true) :
    Effect j s m now (j.advance .registering now)
      { s with outgoing := s.outgoing ++ [j.introduction] }
  | numbered {id : PlayerId} (hk : m.kind = .assignId) (hj : j.status = .registering)
    (hr : m.read? UInt32 = some id) (hc : s.isConnected = true) :
    Effect j s m now (j.advance .joining now)
      { s with playerId := some id, outgoing := s.outgoing ++ [.requestRoomJoin] }
  | seated (hk : m.kind = .roomJoinAccepted) (hj : j.status = .joining) :
    Effect j s m now (j.advance .waitingForOpponent now) s
  | listed (roster : List Player) (hk : tellsRoster m.kind = true) (hh : j.heeds s m = true) :
    Effect j s m now { j with roster := roster } s
  | dealt {seed : UInt64} (hk : m.kind = .sendBagSeed) (hr : m.read? UInt64 = some seed) :
    Effect j s m now { j with seed := some seed } s
  | started {seed : UInt64} {id : PlayerId} (hk : m.kind = .allPlayersReady)
    (hseed : j.seed = some seed) (hid : s.playerId = some id) :
    Effect j s m now (j.advance (.ready seed id) now) s
  /-- The answer cannot be sent. -/
  | cutOff (number : Option PlayerId) (hk : wantsAnswer m.kind = true) (hh : j.heeds s m = true)
    (hc : s.isConnected = false) :
    Effect j s m now (j.advance (.failed .disconnected) now) { s with playerId := number }
  | ignored (h : j.heeds s m = false) : Effect j s m now j s

theorem send_linked (hc : s.isConnected = true) (m : Message) (now : Nat) :
    j.send s m now = (j, { s with outgoing := s.outgoing ++ [m] }) := by
  simp [Joining.send, Session.send, hc]

theorem send_unlinked (hc : s.isConnected = false) (m : Message) (now : Nat) :
    j.send s m now = (j.advance (.failed .disconnected) now, s) := by
  simp [Joining.send, Session.send, hc]

theorem handle_effect (j : Joining) (s : Session) (m : Message) (now : Nat) :
    Effect j s m now (j.handle s m now).1 (j.handle s m now).2 := by
  have hignored (hn : j.heeds s m = false) : Effect j s m now j s := .ignored hn
  unfold heeds at hignored
  unfold Joining.handle
  cases hk : m.kind with
  | serverPing =>
    cases hc : s.isConnected with
    | true =>
      dsimp only
      rw [send_linked hc]
      exact .ponged hk hc
    | false =>
      dsimp only
      rw [send_unlinked hc]
      exact .cutOff s.playerId (by rw [hk]; rfl) (by rw [heeds, hk]) hc
  | accepted =>
    rw [hk] at hignored
    dsimp only
    split
    · next hj =>
      cases hc : s.isConnected with
      | true =>
        rw [send_linked hc]
        exact .greeted hk hj hc
      | false =>
        rw [send_unlinked hc]
        exact .cutOff s.playerId (by rw [hk]; rfl) (by simp [heeds, hk, hj]) hc
    · next hj => exact hignored (by simp [hj])
  | assignId =>
    rw [hk] at hignored
    dsimp only
    split
    · next hj =>
      cases hr : m.read? UInt32 with
      | none => exact hignored (by simp [hr])
      | some id =>
        cases hc : s.isConnected with
        | true =>
          have hc' : (s.setPlayerId id).isConnected = true := hc
          dsimp only
          rw [send_linked hc']
          exact .numbered hk hj hr hc
        | false =>
          have hc' : (s.setPlayerId id).isConnected = false := hc
          dsimp only
          rw [send_unlinked hc']
          exact .cutOff (some id) (by rw [hk]; rfl) (by simp [heeds, hk, hj, hr]) hc
    · next hj => exact hignored (by simp [hj])
  | roomJoinAccepted =>
    rw [hk] at hignored
    dsimp only
    split
    · next hj => exact .seated hk hj
    · next hj => exact hignored (by simp [hj])
  | roomPlayerList | roomPlayerJoined | roomPlayerLeft =>
    rw [hk] at hignored
    dsimp only
    split
    · next hr => exact .listed _ (by rw [hk]; rfl) (by simp [heeds, hk, hr])
    · next hr => exact hignored (by simp [hr])
  | sendBagSeed =>
    rw [hk] at hignored
    dsimp only
    split
    · next seed hr => exact .dealt hk hr
    · next hr => exact hignored (by simp [hr])
  | allPlayersReady =>
    rw [hk] at hignored
    dsimp only
    split
    · next seed id hseed hid => exact .started hk hseed hid
    · next hn =>
      apply hignored
      cases hseed : j.seed with
      | none => rfl
      | some seed =>
        cases hid : s.playerId with
        | none => rfl
        | some id => exact absurd hid (hn seed id hseed)
  | _ =>
    rw [hk] at hignored
    exact hignored rfl

theorem Effect.line (h : Effect j s m now j' s') : s'.line = s.line := by
  cases h <;> rfl

theorem Effect.inbox (h : Effect j s m now j' s') : s'.inbox = s.inbox := by
  cases h <;> rfl

/-- A message of which nothing is made changes nothing. -/
theorem Effect.unheeded (h : Effect j s m now j' s') (hn : j.heeds s m = false) :
    j' = j ∧ s' = s := by
  cases h with
  | ignored => exact ⟨rfl, rfl⟩
  | listed roster hk hh | cutOff number hk hh => exact nomatch hn.symm.trans hh
  | ponged hk => simp [heeds, hk] at hn
  | greeted hk hj | seated hk hj => simp [heeds, hk, hj] at hn
  | numbered hk hj hr => simp [heeds, hk, hj, hr] at hn
  | dealt hk hr => simp [heeds, hk, hr] at hn
  | started hk hseed hid => simp [heeds, hk, hseed, hid] at hn

/-- Handling does not look at the inbox. -/
theorem handle_inbox (j : Joining) (s : Session) (inbox : List Notice) (m : Message) (now : Nat) :
    j.handle { s with inbox := inbox } m now =
      ((j.handle s m now).1, { (j.handle s m now).2 with inbox := inbox }) := by
  have hsend (j : Joining) (s : Session) (m : Message) :
      j.send { s with inbox := inbox } m now =
        ((j.send s m now).1, { (j.send s m now).2 with inbox := inbox }) := by
    cases hc : s.isConnected with
    | true =>
      have hc' : { s with inbox := inbox }.isConnected = true := hc
      rw [send_linked hc, send_linked hc']
    | false =>
      have hc' : { s with inbox := inbox }.isConnected = false := hc
      rw [send_unlinked hc, send_unlinked hc']
  unfold Joining.handle
  cases m.kind with
  | serverPing => exact hsend _ _ _
  | accepted =>
    dsimp only
    split
    · exact hsend _ _ _
    · rfl
  | assignId =>
    dsimp only
    split
    · split
      · exact hsend _ (s.setPlayerId _) _
      · rfl
    · rfl
  | roomJoinAccepted | roomPlayerList | roomPlayerJoined | roomPlayerLeft | sendBagSeed
  | allPlayersReady =>
    dsimp only
    split <;> rfl
  | _ => rfl

end Joining
end BlockDuel.Seat
