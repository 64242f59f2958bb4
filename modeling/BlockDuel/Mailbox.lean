/-!
A queue between the links, which put items in, and their owner, who takes them out in the same order.
Putting an item in always succeeds; once the owner is gone it is dropped.
-/
namespace BlockDuel

/-- The items that wait for the owner. -/
structure Mailbox (α : Type) where
  items : List α
  /-- The owner still takes items out. -/
  attended : Bool

namespace Mailbox

variable {α : Type}

def empty : Mailbox α := ⟨[], true⟩

def push (m : Mailbox α) (a : α) : Mailbox α :=
  if m.attended then { m with items := m.items ++ [a] } else m

def pop (m : Mailbox α) : Option α × Mailbox α :=
  match m.items with
  | [] => (none, m)
  | a :: as => (some a, { m with items := as })

def isEmpty (m : Mailbox α) : Bool := m.items.isEmpty

def abandon (_ : Mailbox α) : Mailbox α := ⟨[], false⟩

end Mailbox
end BlockDuel
