/-!
The shared playing field: twenty visible rows under three spawn rows, ten cells each, row by row.
A cell holds zero when it is empty. Reads and writes outside the field do nothing.
-/
namespace BlockDuel

/-- A whole field, first row first. -/
structure Board where
  cells : Vector Int32 230
  deriving DecidableEq

namespace Board

def width : Nat := 10
/-- Rows, the three spawn rows included. -/
def height : Nat := 3 + 20
def area : Nat := width * height

def empty : Board := ⟨Vector.replicate 230 0⟩

/-- The cell in column `x` of row `y`. -/
def get (b : Board) (x y : Nat) : Int32 :=
  if h : x < 10 ∧ y < 23 then b.cells[y * 10 + x] else 0

def set (b : Board) (x y : Nat) (v : Int32) : Board :=
  if h : x < 10 ∧ y < 23 then ⟨b.cells.set (y * 10 + x) v⟩ else b

def filled (b : Board) : Nat := b.cells.toList.countP (· != 0)

def ofCells (cs : List (Nat × Nat × Int32)) : Board :=
  cs.foldl (fun b (x, y, v) => b.set x y v) empty

end Board
end BlockDuel
