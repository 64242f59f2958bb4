import BlockDuel.Seat.Session

/-!
Joining a match, from the first word of the hall to the start of play. Each stage up to the room has
to hear from the hall in time; waiting for an opponent has no limit. A message that does not belong to
the current stage changes nothing.
-/
namespace BlockDuel.Seat
open Wire

/-- Usual milliseconds to wait for the hall's answer. -/
def responseTimeoutMs : Nat := 3000

inductive JoinFailure
  | timeout | disconnected
  deriving DecidableEq, Repr

def JoinFailure.message : JoinFailure → String
  | timeout => "server did not respond in time"
  | disconnected => "connection to the server was lost"

inductive JoinStatus
  | awaitAccepted
  | registering
  | joining
  | waitingForOpponent
  | ready (seed : UInt64) (playerId : PlayerId)
  | failed (f : JoinFailure)
  deriving DecidableEq, Repr

namespace JoinStatus

def isFinished : JoinStatus → Bool
  | ready _ _ => true
  | failed _ => true
  | _ => false

def awaitsHall : JoinStatus → Bool
  | awaitAccepted | registering | joining => true
  | _ => false

end JoinStatus

structure Joining where
  patience : Nat
  avatar : UInt32
  status : JoinStatus
  since : Nat
  seed : Option UInt64
  /-- The members of the room as the hall last told. -/
  roster : List Player
  deriving DecidableEq, Repr

namespace Joining

def start (patience : Nat) (avatar : UInt32) (now : Nat) : Joining :=
  ⟨patience, avatar, .awaitAccepted, now, none, []⟩

def isFinished (j : Joining) : Bool := j.status.isFinished

def advance (j : Joining) (status : JoinStatus) (now : Nat) : Joining :=
  { j with status := status, since := now }

/-- Sends a message; joining fails if the line is down. -/
def send (j : Joining) (s : Session) (m : Message) (now : Nat) : Joining × Session :=
  match s.send m with
  | (.ok (), s) => (j, s)
  | (.error _, s) => (j.advance (.failed .disconnected) now, s)

/-- What the player tells about itself; the number is the hall's to give. -/
def introduction (j : Joining) : Message := .register ⟨0, j.avatar⟩

def handle (j : Joining) (s : Session) (m : Message) (now : Nat) : Joining × Session :=
  match m.kind with
  | .serverPing => j.send s .clientPong now
  | .accepted =>
    if j.status = .awaitAccepted then (j.advance .registering now).send s j.introduction now
    else (j, s)
  | .assignId =>
    if j.status = .registering then
      match m.read? UInt32 with
      | some id => (j.advance .joining now).send (s.setPlayerId id) .requestRoomJoin now
      | none => (j, s)
    else (j, s)
  | .roomJoinAccepted =>
    if j.status = .joining then (j.advance .waitingForOpponent now, s) else (j, s)
  | .roomPlayerList =>
    match m.read? (List Player) with
    | some ps => ({ j with roster := ps }, s)
    | none => (j, s)
  | .roomPlayerJoined =>
    match m.read? Player with
    | some p => ({ j with roster := j.roster ++ [p] }, s)
    | none => (j, s)
  | .roomPlayerLeft =>
    match m.read? UInt32 with
    | some id => ({ j with roster := j.roster.filter (·.id != id) }, s)
    | none => (j, s)
  | .sendBagSeed =>
    match m.read? UInt64 with
    | some seed => ({ j with seed := some seed }, s)
    | none => (j, s)
  | .allPlayersReady =>
    match j.seed, s.playerId with
    | some seed, some id => (j.advance (.ready seed id) now, s)
    | _, _ => (j, s)
  | _ => (j, s)

/-- Handles the waiting messages until joining is finished; later ones stay where they are. -/
def handleAll (now : Nat) : List Notice → Joining → Session → Joining × Session
  | [], j, s => (j, { s with inbox := [] })
  | n :: rest, j, s =>
    if j.isFinished then (j, { s with inbox := n :: rest })
    else
      match s.accept n with
      | none => handleAll now rest j s
      | some m =>
        let (j, s) := j.handle s m now
        handleAll now rest j s

/-- What is left to check when no message waits. -/
def check (j : Joining) (s : Session) (now : Nat) : Joining :=
  if !s.isConnected then j.advance (.failed .disconnected) now
  else if j.status.awaitsHall ∧ now - j.since > j.patience then j.advance (.failed .timeout) now
  else j

/-- Handles what is there and looks whether the hall is late. -/
def poll (j : Joining) (s : Session) (now : Nat) : Joining × Session :=
  if j.isFinished then (j, s)
  else
    let (j, s) := handleAll now s.inbox j s
    if j.isFinished then (j, s) else (j.check s now, s)

end Joining
end BlockDuel.Seat
