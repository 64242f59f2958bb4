import BlockDuel.Link.Fault
import BlockDuel.Link.Notice

/-!
A player's session with a hall: at most one line at a time, one mailbox for all lines it ever had, and
the number that the hall gave the player. Notices of earlier lines are stale and are skipped.
-/
namespace BlockDuel.Seat
open Wire

/-- The line of a session as the session last saw it. -/
structure Line where
  id : UInt32
  isOpen : Bool
  deriving DecidableEq, Repr

/-- A session between two calls. -/
structure Session where
  line : Option Line
  /-- What the lines reported and has not been looked at. -/
  inbox : List Notice
  playerId : Option PlayerId
  nextLine : UInt32
  /-- Messages that the line took over and has not written yet. -/
  outgoing : List Message
  deriving DecidableEq

namespace Session

def fresh : Session := ⟨none, [], none, 1, []⟩

def isConnected (s : Session) : Bool := s.line.any Line.isOpen

/-- A line reports something. -/
def hear (s : Session) (n : Notice) : Session := { s with inbox := s.inbox ++ [n] }

/-- The current line ends; it reports that once. -/
def lineEnds (s : Session) : Session :=
  match s.line with
  | some ⟨id, true⟩ => { s with line := some ⟨id, false⟩ }.hear (.lost id)
  | _ => s

/-- Gives up the line and what is queued on it. -/
def disconnect (s : Session) : Session := { s.lineEnds with line := none, playerId := none }

/-- A new line in place of the old one. -/
def connect (s : Session) : Session :=
  let s := s.disconnect
  { s with line := some ⟨s.nextLine, true⟩, nextLine := s.nextLine + 1 }

/-- An attempt at a new line that failed gives up the old one all the same. -/
def connectFails (s : Session) : Session := s.disconnect

/-- Hands a message to the line, if it is open. -/
def send (s : Session) (m : Message) : Except Link.Fault Unit × Session :=
  if s.isConnected then (.ok (), { s with outgoing := s.outgoing ++ [m] })
  else (.error .notConnected, s)

/-- The message of a notice, if it is one of the current line. -/
def accept (s : Session) : Notice → Option Message
  | .message id m => if s.line.map Line.id = some id then some m else none
  | _ => none

/-- Takes notices until one is a message. -/
def takeFirst (s : Session) : List Notice → Option Message × Session
  | [] => (none, { s with inbox := [] })
  | n :: rest =>
    match s.accept n with
    | some m => (some m, { s with inbox := rest })
    | none => s.takeFirst rest

/-- The next message that is there. -/
def tryRecv (s : Session) : Option Message × Session := s.takeFirst s.inbox

/-- Takes notices until one is a message or the time is up. `spent i` is how much time had gone when
the `i`-th notice was about to be taken. -/
def takeWithin (s : Session) (limit : Nat) (spent : Nat → Nat) :
    Nat → List Notice → Option Message × Session
  | _, [] => (none, { s with inbox := [] })
  | i, n :: rest =>
    match s.accept n with
    | some m => (some m, { s with inbox := rest })
    | none =>
      if limit - spent i = 0 then (none, { s with inbox := rest })
      else s.takeWithin limit spent (i + 1) rest

/-- The next message, waiting for at most `limit`. -/
def recvWithin (s : Session) (limit : Nat) (spent : Nat → Nat) : Option Message × Session :=
  s.takeWithin limit spent 0 s.inbox

/-- Gives up the line after everything queued on it has been written. The answer is how that goes on a
stream that does not fail, or nothing if there was no line. -/
def shutdown (s : Session) : Option (Except Link.Fault Unit) × Session :=
  (s.line.map fun l => if l.isOpen then .ok () else .error .closed, s.disconnect)

def setPlayerId (s : Session) (id : PlayerId) : Session := { s with playerId := some id }

/-- Takes what the line has written since the last time. -/
def flush (s : Session) : List Message × Session := (s.outgoing, { s with outgoing := [] })

end Session
end BlockDuel.Seat
