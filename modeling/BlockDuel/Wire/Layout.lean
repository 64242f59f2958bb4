import BlockDuel.Wire.Digits

/-!
Values of a fixed width. A layout writes a value as exactly `width` octets and reads any `width`
octets as a value; the laws say that the two undo each other.
-/
namespace BlockDuel.Wire

/-- A way to write a type in a fixed number of octets. -/
class Layout (α : Type) where
  width : Nat
  put : α → Bytes
  get : Bytes → α

/-- Writing has the width, and reading and writing are inverse on octets of that width. -/
class LawfulLayout (α : Type) [Layout α] : Prop where
  length_put (a : α) : (Layout.put a).length = Layout.width α
  get_put (a : α) : Layout.get (Layout.put a) = a
  put_get (bs : Bytes) : bs.length = Layout.width α → Layout.put (Layout.get bs : α) = bs

namespace Layout

instance : Layout Unit := ⟨0, fun _ => [], fun _ => ()⟩

instance : Layout UInt32 :=
  ⟨4, fun n => Digits.write 4 n.toNat, fun bs => UInt32.ofNat (Digits.value bs)⟩

instance : Layout UInt64 :=
  ⟨8, fun n => Digits.write 8 n.toNat, fun bs => UInt64.ofNat (Digits.value bs)⟩

instance : Layout Int32 :=
  ⟨4, fun n => put n.toUInt32, fun bs => (get bs : UInt32).toInt32⟩

instance {α β : Type} [Layout α] [Layout β] : Layout (α × β) where
  width := width α + width β
  put p := put p.1 ++ put p.2
  get bs := (get (bs.take (width α)), get (bs.drop (width α)))

/-- Reads `n` values, one behind the other. -/
def getMany {α : Type} [Layout α] : Nat → Bytes → List α
  | 0, _ => []
  | n + 1, bs => get (bs.take (width α)) :: getMany n (bs.drop (width α))

def putMany {α : Type} [Layout α] (as : List α) : Bytes := as.flatMap put

@[simp] theorem length_getMany {α : Type} [Layout α] (n : Nat) (bs : Bytes) :
    (getMany n bs : List α).length = n := by
  induction n generalizing bs with
  | zero => rfl
  | succ n ih => simp [getMany, ih]

instance {α : Type} [Layout α] {n : Nat} : Layout (Vector α n) where
  width := n * width α
  put v := putMany v.toList
  get bs := ⟨(getMany n bs).toArray, by simp⟩

/-- The layout of a record that is laid out as the tuple of its fields. -/
@[reducible] def ofTuple {α β : Type} [Layout β] (fields : α → β) (build : β → α) : Layout α :=
  ⟨width β, fun a => put (fields a), fun bs => build (get bs)⟩

end Layout
end BlockDuel.Wire
