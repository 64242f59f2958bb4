import BlockDuel.Hall.Heartbeat
import BlockDuel.Hall.Ruling
import BlockDuel.Link.Notice

/-!
A hall handles one notice of its links at a time. It owns the roll, the room and the heartbeat, and
answers each notice with its deeds: what the links are told to do, and what is put on record about
the match. The clock, fresh seeds and the order in which registrations are looked at come from
outside, so a step is a function of what is written here.
-/
namespace BlockDuel.Hall
open Wire

/-- What a hall does in the course of a step. The record of a match asks nothing of the links. -/
inductive Deed
  /-- Queue a message, unless the link is no longer open. -/
  | post (receiver : PlayerId) (m : Message)
  /-- A message for a link that is not on the roll; there is nothing to do. -/
  | miss (receiver : PlayerId) (m : Message)
  /-- Close after everything queued so far. -/
  | finish (id : PlayerId)
  | cut (id : PlayerId)
  /-- On record: a match of these members begins, with a seed that was just made. -/
  | opens (members : List PlayerId) (seed : UInt64)
  /-- On record: a match is decided. -/
  | rules (v : Verdict)
  deriving DecidableEq, Repr

structure State where
  roll : Roll
  room : Room
  heartbeat : Heartbeat

namespace State

def opened (interval patience : Nat) (now : Time) : State :=
  ⟨.empty, .fresh, ⟨interval, patience, now⟩⟩

/-- A message to a link that may be gone. -/
def send (s : State) (receiver : PlayerId) (m : Message) : Deed :=
  if s.roll.hasLink receiver then .post receiver m else .miss receiver m

/-- Decides a running match against `loser` and tells both members. -/
def arbitrate (s : State) (loser : PlayerId) : Option (State × List Deed) :=
  match s.room.arbitrate loser with
  | (some v, room) =>
    let s := { s with room := room }
    some (s, [.rules v, s.send v.winner (.gameOver v), s.send v.loser (.gameOver v)])
  | (none, _) => none

/-- A player leaves the room. Leaving a running match concedes it; the opponent hears of the leaving
either way. -/
def leaveRoom (s : State) (id : PlayerId) : State × List Deed :=
  if !s.room.isMember id then (s, [])
  else
    let opponent := s.room.other? id
    let (s, verdict) := (s.arbitrate id).getD ({ s with room := (s.room.leave id).2 }, [])
    (s, verdict ++ (opponent.map fun o => s.send o (.roomPlayerLeft id)).toList)

def onRegister (s : State) (now : Time) (id : PlayerId) (m : Message) : State × List Deed :=
  match m.read? Player with
  | none => (s, [])
  | some p =>
    match s.roll.register id p now with
    | (some _, roll) =>
      let s := { s with roll := roll }
      (s, [s.send id (.assignId id)])
    | (none, _) => (s, [])

/-- The message says who leaves, but it is always the sender. -/
def onUnregister (s : State) (id : PlayerId) : State × List Deed :=
  match s.roll.withdraw id with
  | (some _, roll) =>
    let (s, told) := { s with roll := roll }.leaveRoom id
    (s, told ++ if s.roll.hasLink id then [.finish id] else [])
  | (none, _) => (s, [])

/-- The registered members of the room in the order of joining. -/
def roster (s : State) : List Player :=
  (s.room.members.filterMap s.roll.registration?).map (·.player)

/-- The member that was waiting hears who came. -/
def introduce (s : State) (id : PlayerId) (existing : Option PlayerId) : List Deed :=
  match existing, s.roll.registration? id with
  | some other, some joiner => [s.send other (.roomPlayerJoined joiner.player)]
  | _, _ => []

/-- With a seed the match begins, and all members are told. -/
def start (s : State) (made : Option UInt64) : List Deed :=
  match made with
  | some seed => .opens s.room.members seed :: s.room.members.flatMap fun m =>
      [s.send m (.bagSeed seed), s.send m .allPlayersReady]
  | none => []

/-- What follows from the room's answer to a request to join. -/
def afterJoin (s : State) (id : PlayerId) : JoinOutcome × Room → State × List Deed
  | (.joined existing made, room) =>
    let s := { s with room := room }
    (s, s.send id .roomJoinAccepted :: s.send id (.roomPlayerList s.roster) ::
      (s.introduce id existing ++ s.start made))
  | (.alreadyMember, _) => (s, [s.send id .roomJoinAccepted])
  | (.notAdmitted, _) => (s, [s.send id .roomJoinAccepted])

/-- Every registered player is told that the request arrived; only a join changes the room. -/
def onRoomJoinM {m : Type → Type} [Monad m] (s : State) (mint : m UInt64) (id : PlayerId) :
    m (State × List Deed) :=
  if !s.roll.isValidated id then pure (s, [])
  else s.afterJoin id <$> s.room.joinM id mint

/-- The message says who died, but it is always the sender. -/
def onPlayerDead (s : State) (id : PlayerId) : State × List Deed := (s.arbitrate id).getD (s, [])

def relay (s : State) (sender : PlayerId) (m : Message) : List Deed :=
  match s.room.route sender m.kind with
  | .forward receiver => [s.send receiver m]
  | .drop _ => []

def onMessageM {m : Type → Type} [Monad m] (s : State) (now : Time) (mint : m UInt64)
    (id : PlayerId) (msg : Message) : m (State × List Deed) :=
  if !s.roll.hasLink id then pure (s, [])
  else
    match msg.kind with
    | .registerWithServer => pure (s.onRegister now id msg)
    | .unregisterWithServer => pure (s.onUnregister id)
    | .clientPong =>
      pure ({ s with roll := s.roll.adjust id fun r => { r with lastPong := now } }, [])
    | .clientPing => pure (s, [s.send id .serverPong])
    | .requestRoomJoin => s.onRoomJoinM mint id
    | .playerDead => pure (s.onPlayerDead id)
    | k => pure (s, if k.relayed then s.relay id msg else [])

def onConnected (s : State) (id : PlayerId) : State × List Deed :=
  let s := { s with roll := s.roll.insert id }
  (s, [s.send id .accepted])

def onLost (s : State) (id : PlayerId) : State × List Deed :=
  match s.roll.remove id with
  | ((true, _), roll) => { s with roll := roll }.leaveRoom id
  | ((false, _), roll) => ({ s with roll := roll }, [])

/-- One notice at the clock reading `now`. `mint` makes a fresh seed. -/
def handleM {m : Type → Type} [Monad m] (s : State) (now : Time) (mint : m UInt64) :
    Notice → m (State × List Deed)
  | .connected id => pure (s.onConnected id)
  | .message id msg => s.onMessageM now mint id msg
  | .lost id => pure (s.onLost id)

/-- One notice at the clock reading `now`, with `seed` for a match that it may start. -/
def handle (s : State) (now : Time) (seed : UInt64) (n : Notice) : State × List Deed :=
  Id.run (s.handleM now (pure seed) n)

/-- Pings the registered players if that is due and cuts the links of silent ones. `order` lists the
registered players. -/
def checkLiveness (s : State) (now : Time) (order : List PlayerId) : State × List Deed :=
  let (isDue, heartbeat) := s.heartbeat.due now
  let s := { s with heartbeat := heartbeat }
  let registrations := order.filterMap s.roll.registration?
  let pings := if isDue then
      (registrations.filter fun r => r.validated && !r.closing).map fun r =>
        s.send r.id .serverPing
    else []
  let silent := heartbeat.expired registrations now
  let roll := silent.foldl (fun roll id => roll.adjust id fun r => { r with closing := true }) s.roll
  ({ s with roll := roll }, pings ++ (silent.filter roll.hasLink).map .cut)

def closeAll (s : State) : List Deed := s.roll.links.map .cut

end State
end BlockDuel.Hall
