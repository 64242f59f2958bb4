import BlockDuel.Snapshot

/-!
The one room of a hall. Two players make it ready, and the second of them brings the seed of their
match. A decided match empties the room at once, so the next pair can form.
-/
namespace BlockDuel.Hall

def roomCapacity : Nat := 2

inductive Phase
  | empty
  | waitingForSecond
  | ready
  deriving DecidableEq, Repr

/-- The members in the order of joining, and the seed of their match. -/
structure Room where
  members : List PlayerId
  phase : Phase
  seed : Option UInt64
  deriving DecidableEq, Repr

/-- What a request to join brought about. -/
inductive JoinOutcome
  /-- The player is in. `existing` was waiting, and a seed means that the room is now ready. -/
  | joined (existing : Option PlayerId) (seed : Option UInt64)
  | alreadyMember
  | notAdmitted
  deriving DecidableEq, Repr

def JoinOutcome.seed? : JoinOutcome → Option UInt64
  | joined _ seed => seed
  | _ => none

structure LeaveOutcome where
  remaining : Option PlayerId
  phaseBefore : Phase
  deriving DecidableEq, Repr

namespace Room

def fresh : Room := ⟨[], .empty, none⟩

def isMember (r : Room) (id : PlayerId) : Bool := r.members.contains id

def other? (r : Room) (id : PlayerId) : Option PlayerId := r.members.find? (· != id)

/-- Admits a player while there is a place. `mint` is run only by the join that makes the room ready,
and then once. -/
def joinM {m : Type → Type} [Monad m] (r : Room) (id : PlayerId) (mint : m UInt64) :
    m (JoinOutcome × Room) :=
  if r.isMember id then pure (.alreadyMember, r)
  else if r.phase = .ready then pure (.notAdmitted, r)
  else if r.members.length ≥ roomCapacity then pure (.notAdmitted, r)
  else
    let existing := r.members.head?
    let members := r.members ++ [id]
    if members.length = roomCapacity then do
      let seed ← mint
      pure (.joined existing (some seed), ⟨members, .ready, some seed⟩)
    else pure (.joined existing none, ⟨members, .waitingForSecond, r.seed⟩)

/-- Admits a player, with `seed` for the match that this may start. -/
def join (r : Room) (id : PlayerId) (seed : UInt64) : JoinOutcome × Room :=
  Id.run (r.joinM id (pure seed))

/-- Removes a member. A room without members is fresh again. -/
def leave (r : Room) (id : PlayerId) : Option LeaveOutcome × Room :=
  if r.isMember id then
    let members := r.members.erase id
    match members.head? with
    | none => (some ⟨none, r.phase⟩, fresh)
    | some a => (some ⟨some a, r.phase⟩, ⟨members, .waitingForSecond, r.seed⟩)
  else (none, r)

/-- Ends a running match and releases its members. -/
def conclude (r : Room) : Option (List PlayerId) × Room :=
  if r.phase = .ready then (some r.members, fresh) else (none, r)

end Room
end BlockDuel.Hall
