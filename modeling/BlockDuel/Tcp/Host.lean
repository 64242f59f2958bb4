import BlockDuel.Hall.Settings
import BlockDuel.Hall.State
import BlockDuel.Tcp.Peer

/-!
A hall on the network. All that the hall decides it decides in a tick; between two ticks its links
move what is under way.
-/
namespace BlockDuel.Tcp
open Std.Async Hall

structure Host where
  server : TCP.Socket.Server
  tickMs : Nat
  hall : State
  ids : Ids
  peers : List Peer
  nextTick : Nat

namespace Host

def listen (s : Settings) : IO (Except ListenFault Host) := do
  match ← resolve s.host s.port with
  | none => pure (.error (.invalidAddress s.host s.port))
  | some address =>
    try
      let server ← TCP.Socket.Server.mk
      server.bind address
      server.listen 128
      let now ← IO.monoMsNow
      pure (.ok ⟨server, s.tickMs.toNat,
        .opened s.pingIntervalMs.toNat s.pongTimeoutMs.toNat now, .start, [], now⟩)
    catch _ => pure (.error (.taken (toString address)))

/-- Lets in everyone who is at the door. -/
partial def letIn (h : Host) : IO Host := do
  match ← (try h.server.tryAccept catch _ => pure none) with
  | none => pure h
  | some socket =>
    try socket.noDelay catch _ => pure ()
    let (id, ids) := h.ids.take
    let link := Link.spawn id Link.defaultLimit true
    letIn { h with ids, peers := h.peers ++ [.ofSocket socket link] }

/-- The link of the number carries out what the hall decided. -/
def act (h : Host) (a : Deed) : Host :=
  let on (id : PlayerId) (f : Link → Link) : Host :=
    { h with peers := h.peers.map fun p => if p.link.id = id then p.call f else p }
  match a with
  | .post receiver m => on receiver (·.send m)
  | .finish id => on id Link.shutdown
  | .cut id => on id Link.disconnect
  | .miss _ _ | .opens _ _ | .rules _ => h

def freshSeed : IO UInt64 := do
  let octets ← IO.getRandomBytes 8
  pure (UInt64.ofNat (Digits.value octets.toList))

/-- The hall handles all notices and looks after the silent players. -/
def tick (h : Host) (now : Nat) : IO Host := do
  let told := h.peers.map Peer.collect
  let mut h := { h with peers := told.map Prod.snd, nextTick := now + h.tickMs }
  for notice in told.flatMap Prod.fst do
    let (hall, deeds) ← h.hall.handleM now freshSeed notice
    h := deeds.foldl act { h with hall }
  let (hall, deeds) := h.hall.checkLiveness now h.hall.roll.registrations.ids
  pure (deeds.foldl act { h with hall })

partial def serve (h : Host) : IO Unit := do
  let now ← IO.monoMsNow
  let h ← h.letIn
  let peers ← h.peers.mapM (·.turn now)
  let h := { h with peers := peers.filter fun p => !p.link.isGone || !p.link.notices.isEmpty }
  let h ← if h.nextTick ≤ now then h.tick now else pure h
  IO.sleep 1
  h.serve

end Host
end BlockDuel.Tcp
