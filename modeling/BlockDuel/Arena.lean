import BlockDuel.Bag

/-!
The state of a match on one player's machine. The player's own half changes by the player's moves,
and each change is marked until it has been shown to the opponent; the opponent's half changes only
by what the opponent reports.
-/
namespace BlockDuel

/-- One half of a match. -/
structure Half where
  falling : Falling
  held : Option Piece
  preview : Preview
  board : Board
  lost : Bool
  deriving DecidableEq

def Half.fresh : Half := ⟨.none, none, .none, .empty, false⟩

/-- Which parts of the own half changed since they were last shown. -/
structure Changes where
  falling : Bool := false
  held : Bool := false
  preview : Bool := false
  board : Bool := false
  deriving DecidableEq, Repr

/-- A match as one player sees it. -/
structure Arena where
  own : Half
  opponent : Half
  bag : Bag
  changed : Changes
  deriving DecidableEq

namespace Arena

/-- Where a piece appears: the column and the row of its box. -/
def spawnX : Int32 := 3
def spawnY : Int32 := 0

/-- A match whose pieces come from `seed`. The first preview is there from the start and is not
marked as changed. -/
def start (seed : UInt64) : Arena :=
  let (next, bag) := (Bag.ofSeed seed).preview
  ⟨{ Half.fresh with preview := .ofPieces next }, .fresh, bag, {}⟩

def half (a : Arena) : Side → Half
  | .here => a.own
  | .there => a.opponent

def setFalling (a : Arena) (f : Falling) : Arena :=
  { a with own.falling := f, changed.falling := true }

def setHeld (a : Arena) (p : Option Piece) : Arena :=
  { a with own.held := p, changed.held := true }

def setPreview (a : Arena) (p : Preview) : Arena :=
  { a with own.preview := p, changed.preview := true }

def setBoard (a : Arena) (b : Board) : Arena :=
  { a with own.board := b, changed.board := true }

/-- Draws the next piece, puts it at the spawn position and shows the five behind it. -/
def spawn (a : Arena) : Piece × Arena :=
  let (p, bag) := a.bag.draw
  let (next, bag) := bag.preview
  let a := { a with bag := bag }
  (p, (a.setFalling (.ofPiece p spawnX spawnY .north)).setPreview (.ofPieces next))

def spawnMany : Nat → Arena → List Piece × Arena
  | 0, a => ([], a)
  | n + 1, a =>
    let (p, a) := a.spawn
    let (ps, a) := spawnMany n a
    (p :: ps, a)

def clearChanges (a : Arena) : Arena := { a with changed := {} }

def seeFalling (a : Arena) (f : Falling) : Arena := { a with opponent.falling := f }
def seeHeld (a : Arena) (p : Option Piece) : Arena := { a with opponent.held := p }
def seePreview (a : Arena) (p : Preview) : Arena := { a with opponent.preview := p }
def seeBoard (a : Arena) (b : Board) : Arena := { a with opponent.board := b }

def setOver (a : Arena) : Side → Arena
  | .here => { a with own.lost := true }
  | .there => { a with opponent.lost := true }

def isOver (a : Arena) (s : Side) : Bool := (a.half s).lost

end Arena
end BlockDuel
