import BlockDuel.Hall.State
import BlockDuel.Wire.Frame

/-!
A hall with scripted guests. Every call runs until nothing more follows from it: the hall handles what
the guests sent, looks after the silent ones, and then hears which links ended. A guest whose octets
stop inside a frame is shown nothing until they end with one; a guest that the hall closes is shown
what was queued for it only if it took leave itself.
-/
namespace BlockDuel.Rehearsal
open Hall Wire

inductive Network
  | reachable | unreachable
  deriving DecidableEq, Repr

inductive DialFault
  | networkUnreachable
  deriving DecidableEq, Repr

inductive Standing
  | present
  | takingLeave
  | cutOff
  | walkedOut
  deriving DecidableEq, Repr

structure Guest where
  id : PlayerId
  /-- What the hall has of an unfinished frame. -/
  intake : Intake
  standing : Standing
  /-- Queued for the guest and not shown yet. -/
  unseen : List Message
  pinged : Bool

/-- What a guest is shown. Seeds are random, so only their order of appearance is told. -/
inductive Shown
  | message (m : Message)
  | seed (number : Nat)
  deriving DecidableEq, Repr

structure Evening where
  network : Network
  refused : List Nat
  hall : State
  ids : Ids
  /-- By arrival; a refused one is no guest. -/
  guests : List (Option Guest)
  /-- Ends of links that the hall has not heard of yet. -/
  ended : List PlayerId
  clock : Time
  nextSeed : UInt64
  /-- Seeds in the order in which guests were shown them. -/
  seedsShown : List UInt64

/-- What can be seen of an evening after a call. -/
structure Scene where
  phase : Phase
  members : List PlayerId
  links : Nat
  registrations : Nat
  received : List (Nat × List Shown)
  closed : List Nat
  pinged : List Nat

namespace Evening

def never : Nat := 3600000000000

/-- A hall that has just opened. Clock readings differ by one, so a patience of zero is exceeded at
once. -/
def opened (network : Network) (pingAlways expire : Bool) (refused : List Nat) : Evening :=
  { network, refused
    hall := .opened (if pingAlways then 0 else never) (if expire then 0 else never) 0
    ids := .start, guests := [], ended := [], clock := 1, nextSeed := 0, seedsShown := [] }

def onGuest (e : Evening) (id : PlayerId) (f : Guest → Guest) : Evening :=
  { e with guests := e.guests.map fun g => g.map fun g => if g.id = id then f g else g }

def guest? (e : Evening) (id : PlayerId) : Option Guest :=
  e.guests.findSome? fun g => g.filter (·.id = id)

/-- The link of a guest ends; that is reported once. -/
def leaves (e : Evening) (id : PlayerId) (standing : Standing) : Evening :=
  if (e.guest? id).any (·.standing = .present) then
    { e.onGuest id (fun g => { g with standing := standing }) with ended := e.ended ++ [id] }
  else e

def act (e : Evening) : Deed → Evening
  | .post receiver m => e.onGuest receiver fun g =>
    if g.standing ≠ .present then g
    else if m.kind = .serverPing then { g with pinged := true }
    else { g with unseen := g.unseen ++ [m] }
  | .finish id => e.leaves id .takingLeave
  | .cut id => e.leaves id .cutOff
  | .miss _ _ | .opens _ _ | .rules _ => e

def handle (e : Evening) (n : Notice) : Evening :=
  let (hall, deeds) := e.hall.handle e.clock e.nextSeed n
  deeds.foldl act { e with hall, clock := e.clock + 1, nextSeed := e.nextSeed + 1 }

def check (e : Evening) : Evening :=
  let (hall, deeds) := e.hall.checkLiveness e.clock e.hall.roll.registrations.ids
  deeds.foldl act { e with hall, clock := e.clock + 1 }

/-- Handles notices, and then the ends of links that follow. Each link ends once, so as many rounds as
there are guests are enough. -/
def rounds : (left : Nat) → List Notice → Evening → Evening
  | 0, notices, e => (notices.foldl handle e).check
  | left + 1, notices, e =>
    let e := (notices.foldl handle e).check
    if e.ended.isEmpty then e
    else rounds left (e.ended.map .lost) { e with ended := [] }

def run (e : Evening) (notices : List Notice) : Evening := rounds (e.guests.length + 1) notices e

/-- Shows a guest what it got; nothing to one whose link was closed over its head. -/
def view (seen : List UInt64) (g : Guest) : List Shown × List UInt64 :=
  let visible := match g.standing with
    | .present => g.intake.pending.isEmpty
    | .takingLeave => true
    | _ => false
  if visible then
    g.unseen.foldl (fun (shown, seen) m =>
      match (if m.kind = .sendBagSeed then m.read? UInt64 else none) with
      | none => (shown ++ [.message m], seen)
      | some seed =>
        let seen := if seen.contains seed then seen else seen ++ [seed]
        (shown ++ [.seed (seen.idxOf seed + 1)], seen)) ([], seen)
  else ([], seen)

def keep (g : Guest) : Guest :=
  if g.standing = .present ∧ g.intake.pending ≠ [] then { g with pinged := false }
  else { g with unseen := [], pinged := false }

/-- What can be seen of the evening, when `before` was how it stood before the call. -/
def scene (before e : Evening) : Scene × Evening :=
  let numbered := (List.range e.guests.length).zip e.guests
  let open? (e : Evening) (n : Nat) : Bool :=
    ((e.guests[n]?).join).any (·.standing = .present)
  let (received, seen) := numbered.foldl (fun (rows, seen) (n, g) =>
    match g with
    | none => (rows, seen)
    | some g =>
      let (shown, seen) := view seen g
      (if shown.isEmpty then rows else rows ++ [(n, shown)], seen)) ([], e.seedsShown)
  let closed := numbered.filterMap fun (n, g) =>
    match g with
    | none => if n < before.guests.length then none else some n
    | some g =>
      let wasOpen := before.guests.length ≤ n || open? before n
      if wasOpen && (g.standing = .takingLeave || g.standing = .cutOff) then some n else none
  let pinged := numbered.filterMap fun (n, g) =>
    if g.any fun g => g.pinged && g.standing = .present && g.intake.pending.isEmpty then some n
    else none
  ({ phase := e.hall.room.phase, members := e.hall.room.members
     links := e.hall.roll.links.length, registrations := e.hall.roll.registrations.size
     received, closed, pinged },
    { e with guests := e.guests.map (·.map keep), seedsShown := seen })

def connect (e : Evening) : Except DialFault Evening :=
  match e.network with
  | .unreachable => .error .networkUnreachable
  | .reachable =>
    if e.refused.contains e.guests.length then .ok { e with guests := e.guests ++ [none] }
    else
      let (id, ids) := e.ids.take
      let guest : Guest := ⟨id, .empty, .present, [], false⟩
      .ok ({ e with ids, guests := e.guests ++ [some guest] }.run [.connected id])

/-- The guest of an arrival, while its link is there. -/
def present? (e : Evening) (arrival : Nat) : Option Guest :=
  ((e.guests[arrival]?).join).filter (·.standing = .present)

/-- A guest sends octets. A faulty frame ends its link after everything before it is dealt with. -/
def send (e : Evening) (arrival : Nat) (bs : Bytes) : Evening :=
  match e.present? arrival with
  | none => e
  | some g =>
    let (messages, fault, intake) := (g.intake.extend bs).drain
    let e := (e.onGuest g.id fun g => { g with intake }).run (messages.map (.message g.id))
    if fault.isSome then (e.leaves g.id .cutOff).run [] else e

def close (e : Evening) (arrival : Nat) : Evening :=
  match e.present? arrival with
  | none => e
  | some g => (e.leaves g.id .walkedOut).run []

def stop (e : Evening) : Evening := (e.hall.closeAll.foldl act e).run []

/-- Some guests arrive, look at the first octets they get, and the hall closes. Tells what each saw
and whether its link ended. -/
def openAndClose (network : Network) (guests : Nat) : Except DialFault (List (Bytes × Bool)) := do
  let e ← (List.range guests).foldlM (fun e _ => e.connect) (opened network false false [])
  let first := e.guests.map fun g => (g.map fun g => g.unseen.flatMap encode).getD []
  let ended := e.stop.guests.map fun g => g.any (·.standing = .cutOff)
  pure ((first.map (·.take headerLength)).zip ended)

end Evening
end BlockDuel.Rehearsal
