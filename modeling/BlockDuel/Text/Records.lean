import BlockDuel.Snapshot
import BlockDuel.Text.Json.Reader

/-!
Records as text values. A record is read from its fields in any order, each exactly once and unknown
ones skipped, or from the bare list of its values. A word may also stand as the only field of an
object with nothing in it.
-/
namespace BlockDuel.Text
open Json

/-- The values of a record's fields, in the order of `names`. -/
def fields? (names : List String) : Json → Option (List Json)
  | .array vs => if vs.length = names.length then some vs else none
  | .object fs =>
    if fs.all (fun f => f.1.isSome) then
      names.mapM fun n =>
        match fs.filter (fun f => f.1 = some n) with
        | [(_, v)] => some v
        | _ => none
    else none
  | _ => none

def int32? : Json → Option Int32
  | .integer n => if -2147483648 ≤ n ∧ n ≤ 2147483647 then some (Int32.ofInt n) else none
  | _ => none

def uint32? : Json → Option UInt32
  | .integer n => if 0 ≤ n ∧ n < 4294967296 then some (UInt32.ofNat n.toNat) else none
  | _ => none

/-- The member of `all` whose word the value is. -/
def word? {α : Type} (all : List α) (word : α → String) : Json → Option α
  | .text (some s) => all.find? (word · == s)
  | .object [(some s, .null)] => all.find? (word · == s)
  | _ => none

def piece? : Json → Option Piece := word? Piece.all Piece.word
def ofPiece (p : Piece) : Json := ofString p.word

def facing? : Json → Option Facing := word? Facing.all Facing.word
def ofFacing (f : Facing) : Json := ofString f.word

/-- A side is only ever written. -/
def ofSide (s : Side) : Json := ofString s.word

def falling? (v : Json) : Option Falling := do
  match ← (← fields? ["kind", "x", "y", "rotation"] v).mapM int32? with
  | [k, x, y, r] => pure ⟨k, x, y, r⟩
  | _ => none

def ofFalling (f : Falling) : Json :=
  record [("kind", .integer f.kind.toInt), ("x", .integer f.x.toInt), ("y", .integer f.y.toInt),
    ("rotation", .integer f.rotation.toInt)]

def preview? (v : Json) : Option Preview := do
  match ← fields? ["kinds"] v with
  | [.array vs] =>
    let ks ← vs.mapM int32?
    if h : ks.toArray.size = 5 then pure ⟨⟨ks.toArray, h⟩⟩ else none
  | _ => none

def ofPreview (p : Preview) : Json :=
  record [("kinds", .array (p.kinds.toList.map fun k => .integer k.toInt))]

def verdict? (v : Json) : Option Verdict := do
  match ← (← fields? ["winner_id", "loser_id"] v).mapM uint32? with
  | [w, l] => pure ⟨w, l⟩
  | _ => none

def ofVerdict (v : Verdict) : Json :=
  record [("winner_id", .integer v.winner.toNat), ("loser_id", .integer v.loser.toNat)]

def player? (v : Json) : Option Player := do
  match ← (← fields? ["unique_id", "avatar_id"] v).mapM uint32? with
  | [i, a] => pure ⟨i, a⟩
  | _ => none

def ofPlayer (p : Player) : Json :=
  record [("unique_id", .integer p.id.toNat), ("avatar_id", .integer p.avatar.toNat)]

/-- A field is written as one flat list of cells. -/
def ofBoard (b : Board) : Json := .array (b.cells.toList.map fun c => .integer c.toInt)

end BlockDuel.Text
