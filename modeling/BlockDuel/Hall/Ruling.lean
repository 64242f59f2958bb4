import BlockDuel.Hall.Room
import BlockDuel.Wire.Kind

/-!
What a hall decides about a running match: to whom a report goes, and who wins when a member gives up.
A ruling empties the room, so a match is decided at most once.
-/
namespace BlockDuel.Hall

inductive DropReason
  | notRelayed | notInMatch | notMember | noPeer
  deriving DecidableEq, Repr

inductive Route
  | forward (receiver : PlayerId)
  | drop (reason : DropReason)
  deriving DecidableEq, Repr

namespace Room

/-- Where a message of kind `k` from `sender` goes. -/
def route (r : Room) (sender : PlayerId) (k : Wire.Kind) : Route :=
  if !k.relayed then .drop .notRelayed
  else if r.phase ≠ .ready then .drop .notInMatch
  else if !r.isMember sender then .drop .notMember
  else
    match r.other? sender with
    | some peer => .forward peer
    | none => .drop .noPeer

/-- Decides a running match against `loser`, if that is one of its members. -/
def arbitrate (r : Room) (loser : PlayerId) : Option Verdict × Room :=
  if r.phase ≠ .ready ∨ !r.isMember loser then (none, r)
  else
    match r.other? loser, r.conclude with
    | some winner, (some _, r') => (some ⟨winner, loser⟩, r')
    | _, _ => (none, r)

end Room
end BlockDuel.Hall
