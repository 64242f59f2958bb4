import BlockDuel.Board
import BlockDuel.Piece

/-!
What the players of a match tell each other: the falling piece, the pieces to come, the verdict and
who takes part. Numbers stay as they were sent; only a reader of a kind decides which piece it names.
-/
namespace BlockDuel

/-- The number that a player has at the host, which is also the number of the player's link. -/
abbrev PlayerId := UInt32

/-- A falling piece as its owner reports it. -/
structure Falling where
  kind : Int32
  x : Int32
  y : Int32
  rotation : Int32
  deriving DecidableEq, Repr

namespace Falling

/-- The report of no piece. -/
def none : Falling := ⟨0, 0, 0, 0⟩

def ofPiece (p : Piece) (x y : Int32) (f : Facing) : Falling := ⟨p.code, x, y, f.code⟩

/-- A held piece has no place, so all but its kind is zero. -/
def held (p : Option Piece) : Falling := { none with kind := Piece.codeOf p }

def piece? (f : Falling) : Option Piece := Piece.ofCode? f.kind

@[simp] theorem piece?_held (p : Option Piece) : (held p).piece? = p := by
  cases p with
  | none => rfl
  | some p => exact Piece.ofCode?_code p

end Falling

/-- The next five pieces in the order of drawing. -/
structure Preview where
  kinds : Vector Int32 5
  deriving DecidableEq

namespace Preview

def count : Nat := 5

def none : Preview := ⟨Vector.replicate 5 0⟩

def ofPieces (ps : Vector Piece 5) : Preview := ⟨ps.map Piece.code⟩

def pieces (p : Preview) : Vector (Option Piece) 5 := p.kinds.map Piece.ofCode?

end Preview

/-- Who won and who lost a match. -/
structure Verdict where
  winner : PlayerId
  loser : PlayerId
  deriving DecidableEq, Repr

/-- An entry of the room's list of players. -/
structure Player where
  id : PlayerId
  avatar : UInt32
  deriving DecidableEq, Repr

end BlockDuel
