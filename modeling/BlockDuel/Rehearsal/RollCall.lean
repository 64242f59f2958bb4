import BlockDuel.Hall.Heartbeat
import BlockDuel.Link.Bench

/-!
A roll with real links over pipes in memory. Each link has a peer that reads everything at once. A
second link of one number takes the place of the first and its peer end is dropped; a link that is
struck off the roll stays as it is.
-/
namespace BlockDuel.Rehearsal
open Hall Link

/-- A link with what its peer has read of an unfinished frame. -/
structure Patch where
  bench : Bench
  intake : Wire.Intake

/-- A roll, all links that ever were, and by number the link on the roll and the link whose peer is
still there. -/
structure RollCall where
  roll : Roll
  patches : List Patch
  handles : Table Nat
  peers : Table Nat

/-- What a peer got: messages, and whether its stream is at the end. -/
structure Delivery where
  id : PlayerId
  messages : List Wire.Message
  isEnd : Bool

namespace RollCall

def capacity : Nat := 65536

def empty : RollCall := ⟨.empty, [], .empty, .empty⟩

def onLink (r : RollCall) (n : Nat) (f : Bench → Bench) : RollCall :=
  { r with patches := r.patches.modify n fun p => { p with bench := f p.bench } }

def peerClose (r : RollCall) (id : PlayerId) : RollCall :=
  match r.peers.get? id with
  | some n => { r.onLink n Bench.peerClose with peers := r.peers.erase id }
  | none => r

def insert (r : RollCall) (id : PlayerId) : RollCall :=
  let r := r.peerClose id
  let n := r.patches.length
  let bench : Bench := ⟨Link.spawn id defaultLimit false, .pipe ⟨capacity, [], [], false, false⟩, 0⟩
  { roll := r.roll.insert id
    patches := r.patches ++ [⟨bench, .empty⟩]
    handles := r.handles.put id n
    peers := r.peers.put id n }

/-- Acts on the link of a number, if that is on the roll. -/
def onRoll (r : RollCall) (id : PlayerId) (f : Link → Link) : RollCall :=
  match r.handles.get? id with
  | some n => if r.roll.hasLink id then r.onLink n (·.call f) else r
  | none => r

def send (r : RollCall) (id : PlayerId) (m : Wire.Message) : RollCall :=
  r.onRoll id (·.send m)

def disconnectAll (r : RollCall) : RollCall :=
  r.roll.links.foldl (fun r id => r.onRoll id Link.disconnect) r

/-- Lets all links settle, and tells what the peers got and whose links ended. -/
def observe (r : RollCall) : List Delivery × List PlayerId × RollCall :=
  let read := r.patches.map fun p =>
    let (pieces, isEnd, bench) := p.bench.peerRead (p.bench.weight + 1)
    let (messages, _, intake) := (p.intake.extend pieces.flatten).drain
    let (notices, bench) := bench.settle.collect
    let lost := notices.filterMap fun n =>
      match n with
      | Notice.lost who => some who
      | _ => none
    ((messages, isEnd), lost, { bench, intake : Patch })
  let deliveries := r.peers.entries.filterMap fun (who, n) =>
    (read[n]?).map fun ((messages, isEnd), _, _) => ⟨who, messages, isEnd⟩
  (deliveries, (read.flatMap (·.2.1)).mergeSort (· ≤ ·), { r with patches := read.map (·.2.2) })

end RollCall
end BlockDuel.Rehearsal
