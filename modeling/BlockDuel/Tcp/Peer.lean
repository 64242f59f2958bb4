import BlockDuel.Link.Basic
import BlockDuel.Text.Address
import Std.Async.DNS
import Std.Async.TCP

/-!
A link over a socket. The link decides what happens; a turn only carries octets between it and the
socket, without waiting for either.
-/
namespace BlockDuel.Tcp
open Std.Async Std.Net

/-- A socket with the link that runs over it and what is under way on it. -/
structure Peer where
  socket : TCP.Socket.Client
  link : Link
  reading : Option (AsyncTask (Option ByteArray))
  writing : Option (AsyncTask Unit)

namespace Peer

def ofSocket (socket : TCP.Socket.Client) (link : Link) : Peer := ⟨socket, link, none, none⟩

def call (p : Peer) (f : Link → Link) : Peer := { p with link := f p.link }

def finished? {α : Type} (t : AsyncTask α) : IO (Option (Except IO.Error α)) := do
  match ← t.getState with
  | .finished => pure (some t.get)
  | _ => pure none

/-- A reader that stops no longer waits for octets. -/
def stopReading (p : Peer) : IO Peer := do
  if p.reading.isSome then
    try (p.socket.recvSelector 1).unregisterFn.block catch _ => pure ()
  pure { p with reading := none }

def read (p : Peer) : IO Peer := do
  match p.link.reader with
  | .stopped => p.stopReading
  | .waiting _ =>
    if p.link.phase = .closed then (p.call Link.readerStops).stopReading
    else
      match p.reading with
      | none =>
        let task ← (p.socket.recv? (UInt64.ofNat Link.readChunk)).toIO
        pure { p with reading := some task }
      | some task =>
        match ← finished? task with
        | none => pure p
        | some (.ok (some octets)) =>
          pure { p.call (·.received octets.toList) with reading := none }
        | some _ => pure { p.call Link.readEnded with reading := none }

/-- Starts `act` if nothing is under way, and looks how it went. -/
def attempt (p : Peer) (act : Async Unit) : IO (Option (Except IO.Error Unit) × Peer) := do
  match p.writing with
  | none => pure (none, { p with writing := some (← act.toIO) })
  | some task =>
    match ← finished? task with
    | none => pure (none, p)
    | some r => pure (some r, { p with writing := none })

def write (p : Peer) (now : Nat) : IO Peer := do
  match p.link.writer with
  | .stopped => pure p
  | .idle => pure (p.call (if p.link.phase = .closed then Link.writerStops else (·.takeOrder now)))
  | .writing octets deadline =>
    if p.link.phase = .closed then pure (p.call Link.writerStops)
    else
      let (result, p) ← p.attempt (p.socket.send ⟨octets.toArray⟩)
      match result with
      | some (.ok ()) => pure (p.call (·.wrote octets.length))
      | some (.error _) => pure (p.call Link.writeFailed)
      | none => pure (if deadline ≤ now then p.call Link.writeFailed else p)
  | .closing _ deadline =>
    let (result, p) ← p.attempt p.socket.shutdown
    match result with
    | some (.ok ()) => pure (p.call (·.closeEnded (.ok ())))
    | some (.error e) => pure (p.call (·.closeEnded (.error (.io (toString e)))))
    | none =>
      if deadline ≤ now then
        pure (p.call fun l => l.closeEnded (.error (.writeTimeout (.ofMillis l.limit))))
      else pure p

def turn (p : Peer) (now : Nat) : IO Peer := do (← p.read).write now

/-- Takes what the owner has been told since the last time. -/
def collect (p : Peer) : List Notice × Peer :=
  (p.link.notices, p.call fun l => { l with notices := [] })

end Peer

/-- A literal address as the network has it. -/
def literal? : Text.Host → Option IPAddr
  | .four [a, b, c, d] => some (.v4 (.ofParts (.ofNat a) (.ofNat b) (.ofNat c) (.ofNat d)))
  | .six [a, b, c, d, e, f, g, h] =>
    some (.v6 (.ofParts (.ofNat a) (.ofNat b) (.ofNat c) (.ofNat d)
      (.ofNat e) (.ofNat f) (.ofNat g) (.ofNat h)))
  | _ => none

/-- The address of a host, which is looked up unless it is literal. -/
def resolve (host : String) (port : UInt16) : IO (Option SocketAddress) := do
  let found ← match (Text.Host.parse? host.toList).bind literal? with
    | some a => pure (some a)
    | none =>
      try pure (← (DNS.getAddrInfo host (toString port.toNat)).block)[0]?
      catch _ => pure none
  pure (found.map fun
    | .v4 a => .v4 ⟨a, port⟩
    | .v6 a => .v6 ⟨a, port⟩)

end BlockDuel.Tcp
