import BlockDuel.Wire.Message

/-!
What links tell their owner.
-/
namespace BlockDuel

/-- Something that happened to a link. -/
inductive Notice
  | connected (id : PlayerId)
  | message (id : PlayerId) (m : Wire.Message)
  /-- The link ended, whoever ended it. -/
  | lost (id : PlayerId)
  deriving DecidableEq, Repr

def Notice.id : Notice → PlayerId
  | connected id => id
  | message id _ => id
  | lost id => id

end BlockDuel
