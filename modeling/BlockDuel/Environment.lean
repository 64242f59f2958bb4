import BlockDuel.Text.Blank
import BlockDuel.Text.Unsigned

/-!
Settings from the variables of a process. A number may have white space around it; a variable that is
missing or no number in range says nothing.
-/
namespace BlockDuel

abbrev Environment := String → Option String

namespace Environment

/-- A number below `bound` from a variable. -/
def number? (env : Environment) (key : String) (bound : Nat) : Option Nat :=
  (env key).bind fun s => Text.unsigned? bound (Text.trim s.toList)

/-- Text from a variable, unless it is blank. -/
def text? (env : Environment) (key : String) : Option String :=
  ((env key).map fun s => String.ofList (Text.trim s.toList)).filter (· != "")

end Environment
end BlockDuel
