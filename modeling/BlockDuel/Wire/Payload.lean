import BlockDuel.Snapshot
import BlockDuel.Wire.Layout

/-!
What a frame can carry. Values of a fixed width take exactly that many octets; a list of players
starts with its length. Reading fails only when the octets have the wrong size, and says which size
would have been right.
-/
namespace BlockDuel.Wire

/-- The size that a value needs and the size that was there. -/
structure SizeMismatch where
  expected : Nat
  actual : Nat
  deriving DecidableEq, Repr

/-- A value that travels in a frame. -/
class Payload (α : Type) where
  write : α → Bytes
  read : Bytes → Except SizeMismatch α

instance : Layout Falling :=
  Layout.ofTuple (fun f => (f.kind, f.x, f.y, f.rotation)) (fun (k, x, y, r) => ⟨k, x, y, r⟩)

instance : Layout Preview := Layout.ofTuple Preview.kinds Preview.mk

instance : Layout Board := Layout.ofTuple Board.cells Board.mk

instance : Layout Verdict :=
  Layout.ofTuple (fun v => (v.winner, v.loser)) (fun (w, l) => ⟨w, l⟩)

instance : Layout Player :=
  Layout.ofTuple (fun p => (p.id, p.avatar)) (fun (i, a) => ⟨i, a⟩)

namespace Payload

instance {α : Type} [Layout α] : Payload α where
  write := Layout.put
  read bs :=
    if bs.length = Layout.width α then .ok (Layout.get bs)
    else .error ⟨Layout.width α, bs.length⟩

instance : Payload (List Player) where
  write ps := Digits.write 4 ps.length ++ Layout.putMany ps
  read bs :=
    if bs.length < 4 then .error ⟨4, bs.length⟩
    else
      let count := Digits.value (bs.take 4)
      let body := bs.drop 4
      if body.length = count * Layout.width Player then .ok (Layout.getMany count body)
      else .error ⟨4 + count * Layout.width Player, bs.length⟩

end Payload
end BlockDuel.Wire
