/-!
A linear congruential generator over 64-bit words that shows the high half of its state, and the
shuffle that it drives. Shuffling only moves elements about and takes one number for each but one of
them.
-/
namespace BlockDuel

structure Generator where
  state : UInt64
  deriving DecidableEq, Repr

namespace Generator

def advance (s : UInt64) : UInt64 := 1442695040888963407 + 6364136223846793005 * s

/-- The next number. The low bits of such a generator repeat early, so the high half is shown. -/
def next (g : Generator) : UInt32 × Generator :=
  let s := advance g.state
  ((s >>> 32).toUInt32, ⟨s⟩)

/-- The next number reduced below `bound`. No number is below zero; one is drawn all the same. -/
def below? (g : Generator) (bound : UInt32) : Option UInt32 × Generator :=
  let (n, g) := g.next
  (if bound = 0 then none else some (n % bound), g)

/-- Exchanges each place from `i` down to one with a random place that is not above it. -/
def shuffleFrom {α : Type} : Nat → Array α → Generator → Array α × Generator
  | 0, a, g => (a, g)
  | i + 1, a, g =>
    let drawn := g.next
    shuffleFrom i (a.swapIfInBounds (i + 1) (drawn.1 % UInt32.ofNat (i + 2)).toNat) drawn.2

def shuffle {α : Type} (g : Generator) (as : List α) : List α × Generator :=
  let shuffled := shuffleFrom (as.length - 1) as.toArray g
  (shuffled.1.toList, shuffled.2)

@[simp] theorem size_shuffleFrom {α : Type} (i : Nat) (a : Array α) (g : Generator) :
    (shuffleFrom i a g).1.size = a.size := by
  induction i generalizing a g with
  | zero => rfl
  | succ i ih => rw [shuffleFrom, ih, Array.size_swapIfInBounds]

@[simp] theorem length_shuffle {α : Type} (g : Generator) (as : List α) :
    (g.shuffle as).1.length = as.length := by
  rw [shuffle, Array.length_toList, size_shuffleFrom, List.size_toArray]

end Generator
end BlockDuel
