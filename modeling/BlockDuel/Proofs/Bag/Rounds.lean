import BlockDuel.Proofs.Bag.Dealing
import BlockDuel.Proofs.Bag.Shuffle

/-!
The pieces come in rounds of seven. Shuffling a bag adds one of each piece to the queue, and drawing
takes from the front, so what was drawn since the start and what is queued make up whole bags. However
far somebody looked ahead, every seven draws are one bag.
-/
namespace BlockDuel.Bag

/-- A row of whole bags, each in some order. -/
inductive Whole : List Piece → Prop
  | nil : Whole []
  | more {ps bag : List Piece} (rest : Whole ps) (perm : bag.Perm Piece.all) : Whole (ps ++ bag)

variable {b b' : Bag} {ps : List Piece}

theorem count_all (p : Piece) : Piece.all.count p = 1 := by
  cases p <;> rfl

theorem Whole.dvd_length (h : Whole ps) : 7 ∣ ps.length := by
  induction h with
  | nil => exact Nat.dvd_zero 7
  | more rest perm ih =>
    rw [List.length_append, perm.length_eq]
    exact Nat.dvd_add ih (Nat.dvd_refl 7)

/-- The seven pieces behind any number of rounds are a bag. -/
theorem Whole.round (h : Whole ps) {k : Nat} (hk : 7 * (k + 1) ≤ ps.length) :
    ((ps.drop (7 * k)).take 7).Perm Piece.all := by
  induction h with
  | nil => simp at hk
  | @more ps bag rest perm ih =>
    have hbag : bag.length = 7 := perm.length_eq
    by_cases hin : 7 * (k + 1) ≤ ps.length
    · rw [List.drop_append_of_le_length (by omega), List.take_append_of_le_length]
      · exact ih hin
      · rw [List.length_drop]
        omega
    · -- the last bag, since the others have all their pieces
      have hlast : ps.length = 7 * k := by
        obtain ⟨j, hj⟩ := rest.dvd_length
        rw [List.length_append, hbag] at hk
        omega
      rw [List.drop_left' hlast, List.take_of_length_le (Nat.le_of_eq hbag)]
      exact perm

theorem Whole.iterate_refill (h : Whole b.queue) (k : Nat) : Whole (refill^[k] b).queue := by
  induction k with
  | zero => exact h
  | succ k ih =>
    rw [Function.iterate_succ_apply']
    exact ih.more (Generator.shuffle_perm _ _)

/-- Drawing and shuffling keep whole bags whole. -/
theorem Yields.whole (hy : b.Yields ps b') (h : Whole b.queue) : Whole (ps ++ b'.queue) := by
  obtain ⟨k, hk⟩ := hy
  have hw := h.iterate_refill k
  rwa [hk] at hw

/-- From a bag whose sequence was just started, every seven draws give one of each piece, whatever is
looked at in between. The pieces drawn and those queued make up whole bags, and a draw always finds
its piece in the queue. -/
theorem rounds_of_seven (seed : UInt64) (b : Bag)
    (started : b = ofSeed seed ∨ ∃ old : Bag, b = old.reseed seed) (acts : List Act) :
    let drawn := (b.run acts).1
    let left := (b.run acts).2
    (∀ k, 7 * (k + 1) ≤ drawn.length → ∀ p, ((drawn.drop (7 * k)).take 7).count p = 1) ∧
      7 ∣ drawn.length + left.queued ∧
      left.stocked.queue = left.draw.1 :: left.draw.2.queue := by
  intro drawn left
  have hqueue : b.queue = [] := by
    rcases started with rfl | ⟨old, rfl⟩ <;> rfl
  have hwhole : Whole (drawn ++ left.queue) := by
    apply (yields_run b acts).whole
    rw [hqueue]
    exact .nil
  refine ⟨?_, ?_, ?_⟩
  · intro k hk p
    have hlong : 7 * (k + 1) ≤ (drawn ++ left.queue).length := by
      rw [List.length_append]
      omega
    have hround := hwhole.round hlong
    rw [List.drop_append_of_le_length (by omega), List.take_append_of_le_length] at hround
    · rw [hround.count_eq, count_all]
    · rw [List.length_drop]
      omega
  · have hlength := hwhole.dvd_length
    rwa [List.length_append] at hlength
  · rw [stocked_eq_behind]
    rfl

/-- A look twenty pieces ahead and a preview in the middle of the second round: it has its `T` all the
same. -/
theorem second_round_complete :
    let acts : List Act := .peek 20 :: (List.replicate 9 .draw ++ .preview :: List.replicate 5 .draw)
    let drawn := (((ofSeed 99).reseed 7).run acts).1
    drawn.length = 14 ∧ ((drawn.drop 7).take 7).count .T = 1 := by
  intro acts drawn
  have hlength : drawn.length = 14 := length_run _ acts
  refine ⟨hlength, ?_⟩
  exact (rounds_of_seven 7 _ (.inr ⟨ofSeed 99, rfl⟩) acts).1 1 (Nat.le_of_eq hlength.symm) .T

end BlockDuel.Bag
