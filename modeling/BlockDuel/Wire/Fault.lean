import BlockDuel.Wire.Kind

/-!
The ways in which octets fail to be a message, and their wording.
-/
namespace BlockDuel.Wire

inductive Fault
  /-- The header declares another length than the octets have. -/
  | malformed (declared available : Nat)
  /-- The header names no kind. -/
  | unknownKind (tag : UInt32)
  /-- The header declares more than a frame may carry. -/
  | tooLarge (declared : Nat)
  /-- The payload has another size than the value to be read from it. -/
  | payloadSize (kind : Kind) (expected actual : Nat)
  deriving DecidableEq, Repr

namespace Fault

def message : Fault → String
  | malformed declared available =>
    s!"malformed frame: header declares {declared} payload bytes, {available} available"
  | unknownKind tag => s!"unknown message type {tag.toNat}"
  | tooLarge declared => s!"frame too large: {declared} payload bytes"
  | payloadSize kind expected actual =>
    s!"{kind.name} payload is {actual} bytes, expected {expected}"

end Fault
end BlockDuel.Wire
