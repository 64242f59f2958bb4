import BlockDuel.Generator
import BlockDuel.Snapshot

/-!
Pieces dealt from shuffled bags of seven. Looking ahead only shuffles later bags early, so it never
changes which pieces come next; two bags with one seed deal the same pieces.
-/
namespace BlockDuel

/-- The pieces already shuffled and the generator that shuffles the next bag. -/
structure Bag where
  queue : List Piece
  generator : Generator
  seed : UInt64
  deriving DecidableEq, Repr

namespace Bag

/-- A bag at the start of the sequence of `seed`. -/
def ofSeed (seed : UInt64) : Bag := ⟨[], ⟨seed⟩, seed⟩

/-- Starts the sequence of another seed and drops what was queued. -/
def reseed (_ : Bag) (seed : UInt64) : Bag := ofSeed seed

/-- Shuffles one more bag behind the queue. -/
def refill (b : Bag) : Bag :=
  let shuffled := b.generator.shuffle Piece.all
  { b with queue := b.queue ++ shuffled.1, generator := shuffled.2 }

def queued (b : Bag) : Nat := b.queue.length

@[simp] theorem queued_refill (b : Bag) : b.refill.queued = b.queued + 7 := by
  rw [queued, refill, List.length_append, Generator.length_shuffle]
  rfl

/-- Shuffles bags until more than `n` pieces are queued. -/
def fill (n : Nat) (b : Bag) : Bag :=
  if n < b.queued then b else fill n b.refill
termination_by n + 1 - b.queued
decreasing_by
  simp only [queued_refill]
  omega

def draw (b : Bag) : Piece × Bag :=
  let b := if b.queue.isEmpty then b.refill else b
  match b.queue with
  | p :: ps => (p, { b with queue := ps })
  | [] => (.I, b)

/-- The piece that is `i` draws ahead of the next one. -/
def peek (b : Bag) (i : Nat) : Piece × Bag :=
  let b := b.fill i
  (b.queue.getD i .I, b)

def preview (b : Bag) : Vector Piece 5 × Bag :=
  let b := b.fill 4
  (Vector.ofFn fun i => b.queue.getD i.val .I, b)

def drawMany : Nat → Bag → List Piece × Bag
  | 0, b => ([], b)
  | n + 1, b =>
    let (p, b) := b.draw
    let (ps, b) := drawMany n b
    (p :: ps, b)

end Bag
end BlockDuel
