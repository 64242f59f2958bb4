import BlockDuel.Seat.Observer
import BlockDuel.Tcp.Peer

/-!
An observer on the network. It looks at its session once a frame and writes its log line by line.
-/
namespace BlockDuel.Tcp
open Std.Async Seat

/-- Milliseconds between two looks at the session. -/
def frameMs : Nat := 16
/-- Milliseconds between two pieces. -/
def spawnMs : Nat := 500
/-- Most milliseconds for a connection to be made. -/
def dialMs : Nat := 3000

structure Spectator where
  peer : Peer
  session : Session
  observer : Observer
  options : Observer.Options
  started : Nat
  lastSpawn : Nat

namespace Spectator

/-- The result of a task that gets at most `limit` milliseconds. -/
partial def within {α : Type} (t : AsyncTask α) (limit : Nat) :
    IO (Option (Except IO.Error α)) := do
  match ← Peer.finished? t with
  | some r => pure (some r)
  | none =>
    if limit = 0 then pure none
    else
      IO.sleep 1
      within t (limit - 1)

def dial (host : String) (port : UInt16) : IO (Except Link.Fault Peer) := do
  let name := host ++ ":" ++ toString port.toNat
  match ← resolve host port with
  | none => pure (.error (.unreachable name "unknown host"))
  | some address =>
    let socket ← TCP.Socket.Client.mk
    match ← within (← (socket.connect address).toIO) dialMs with
    | some (.ok ()) =>
      try socket.noDelay catch _ => pure ()
      pure (.ok (.ofSocket socket (Link.spawn 1 Link.defaultLimit false)))
    | some (.error e) => pure (.error (.unreachable name (toString e)))
    | none => pure (.error (.connectTimeout name (.ofMillis dialMs)))

/-- What the link reported reaches the session. -/
def hear (s : Session) : Notice → Session
  | .lost _ => s.lineEnds
  | n => s.hear n

def look (w : Spectator) (now : Nat) : List Report × Spectator :=
  match w.observer with
  | .finished _ => ([], w)
  | .joining j =>
    let (seen, observer, session) := Observer.join j w.session now
    (seen, { w with observer, session, started := now, lastSpawn := now })
  | .playing p =>
    let spawns := now - w.lastSpawn ≥ spawnMs
    let beat : Observer.Beat := ⟨w.options.dies (now - w.started), spawns⟩
    let (seen, observer, session) := Observer.frame p w.session beat
    (seen, { w with observer, session, lastSpawn := if spawns then now else w.lastSpawn })

def post (w : Spectator) : Spectator :=
  let (sent, session) := w.session.flush
  { w with session, peer := sent.foldl (fun p m => p.call (·.send m)) w.peer }

/-- Lets the link write what is queued and close. -/
partial def close (p : Peer) : IO Unit := do
  if p.link.isGone then pure ()
  else
    let p ← p.turn (← IO.monoMsNow)
    IO.sleep 1
    close p

/-- Watches until the log is complete. Gives the exit code. -/
partial def watch (w : Spectator) (nextLook : Nat) : IO Nat := do
  let now ← IO.monoMsNow
  let peer ← w.peer.turn now
  let w := { w with peer }
  if now < nextLook then
    IO.sleep 1
    w.watch nextLook
  else
    let (notices, peer) := w.peer.collect
    let w := { w with peer, session := notices.foldl hear w.session }
    let (seen, w) := w.look now
    for report in seen do
      IO.println report.toJson.render
    let w := w.post
    match w.observer with
    | .finished code =>
      close (w.peer.call Link.shutdown)
      pure code
    | _ => w.watch (now + frameMs)

/-- Joins over a link that has just been made. -/
def run (peer : Peer) (options : Observer.Options) : IO Nat := do
  let now ← IO.monoMsNow
  let w : Spectator := ⟨peer, Session.fresh.connect, .start options now, options, now, now⟩
  w.watch now

end Spectator
end BlockDuel.Tcp
