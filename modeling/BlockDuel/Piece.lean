/-!
The seven pieces and the four ways a piece faces, with their numbers on the wire. Zero is the number
of no piece, and every number outside one to seven is read as no piece.
-/
namespace BlockDuel

inductive Piece
  | I | O | T | L | J | S | Z
  deriving DecidableEq, Repr

namespace Piece

/-- The order in which a fresh bag lists the pieces. -/
def all : List Piece := [I, O, T, L, J, S, Z]

/-- The number of a piece on the wire. -/
def code : Piece → Int32
  | I => 1 | O => 2 | T => 3 | L => 4 | J => 5 | S => 6 | Z => 7

def ofCode? (n : Int32) : Option Piece :=
  match n.toInt with
  | 1 => some I | 2 => some O | 3 => some T | 4 => some L
  | 5 => some J | 6 => some S | 7 => some Z
  | _ => none

def codeOf (p : Option Piece) : Int32 := (p.map code).getD 0

/-- The letter that the piece looks like. -/
def letter : Piece → String
  | I => "I" | O => "O" | T => "T" | L => "L" | J => "J" | S => "S" | Z => "Z"

def word : Piece → String
  | I => "i" | O => "o" | T => "t" | L => "l" | J => "j" | S => "s" | Z => "z"

@[simp] theorem ofCode?_code (p : Piece) : ofCode? p.code = some p := by
  cases p <;> rfl

end Piece

/-- Quarter turns clockwise from the spawn position. -/
inductive Facing
  | north | east | south | west
  deriving DecidableEq, Repr

namespace Facing

def all : List Facing := [north, east, south, west]

def code : Facing → Int32
  | north => 0 | east => 1 | south => 2 | west => 3

def word : Facing → String
  | north => "north" | east => "east" | south => "south" | west => "west"

end Facing

/-- The two sides of a match as one player sees them. -/
inductive Side
  | here | there
  deriving DecidableEq, Repr

namespace Side

def all : List Side := [here, there]

def index : Side → Nat
  | here => 0 | there => 1

def word : Side → String
  | here => "local" | there => "remote"

end Side
end BlockDuel
