/-!
Numbers as base-256 digits, least significant first. Writing keeps the low digits of a number and
reading a written number gives it back modulo the width, so the two are inverse on each width.
-/
namespace BlockDuel

abbrev Bytes := List UInt8

namespace Digits

/-- The `w` low digits of `n`. -/
def write : Nat → Nat → Bytes
  | 0, _ => []
  | w + 1, n => UInt8.ofNat n :: write w (n / 256)

def value : Bytes → Nat
  | [] => 0
  | b :: bs => b.toNat + 256 * value bs

/-- How many numbers `w` digits can tell apart. -/
def span : Nat → Nat
  | 0 => 1
  | w + 1 => 256 * span w

@[simp] theorem length_write (w n : Nat) : (write w n).length = w := by
  induction w generalizing n with
  | zero => rfl
  | succ w ih => simp [write, ih]

theorem value_write (w n : Nat) : value (write w n) = n % span w := by
  induction w generalizing n with
  | zero => simp [write, value, span, Nat.mod_one]
  | succ w ih =>
    have hb : (UInt8.ofNat n).toNat = n % 256 := UInt8.toNat_ofNat'
    rw [write, value, ih, hb, span, Nat.mod_mul]

theorem value_lt (bs : Bytes) : value bs < span bs.length := by
  induction bs with
  | nil => simp [value, span]
  | cons b bs ih =>
    have hb : b.toNat < 256 := b.toNat_lt
    rw [value, List.length_cons, span]
    omega

theorem write_value (bs : Bytes) : write bs.length (value bs) = bs := by
  induction bs with
  | nil => rfl
  | cons b bs ih =>
    have hb : b.toNat < 256 := b.toNat_lt
    have hd : (b.toNat + 256 * value bs) / 256 = value bs := by omega
    have hm : UInt8.ofNat (b.toNat + 256 * value bs) = b := by
      apply UInt8.toNat_inj.mp
      rw [UInt8.toNat_ofNat']
      omega
    rw [value, List.length_cons, write, hd, ih, hm]

end Digits
end BlockDuel
