/-!
Unsigned numbers in text: one optional plus sign, then ASCII digits and nothing else. Leading zeros do
not count towards the bound.
-/
namespace BlockDuel.Text

/-- The number that ASCII digits stand for. -/
def digits? (cs : List Char) : Option Nat :=
  cs.foldl (fun n c => n.bind fun n => if c.isDigit then some (10 * n + (c.toNat - 48)) else none)
    (some 0)

def unsigned? (bound : Nat) (cs : List Char) : Option Nat :=
  let ds := match cs with
    | '+' :: ds => ds
    | ds => ds
  if ds.isEmpty then none else (digits? ds).filter (· < bound)

end BlockDuel.Text
