import BlockDuel.Bag
import Mathlib.Data.Nat.Init
import Mathlib.Logic.Function.Iterate

/-!
Dealing and looking ahead. A bag is a window on one endless sequence of pieces: shuffling one more bag
widens the window, drawing a piece moves it on, and the sequence stays what it is. So it does not matter
for the pieces that are drawn who looked ahead, when, and how far.
-/
namespace BlockDuel.Bag

/-- Something that is asked of a bag. -/
inductive Act
  | draw
  | peek (i : Nat)
  | preview
  deriving DecidableEq, Repr

/-- The pieces that an act draws, and the bag behind it. -/
def does (b : Bag) : Act → List Piece × Bag
  | .draw => ([b.draw.1], b.draw.2)
  | .peek i => ([], (b.peek i).2)
  | .preview => ([], b.preview.2)

/-- The pieces that come of some acts on anything that deals pieces, and what is left behind them. -/
def runBy {σ α : Type} (does : σ → α → List Piece × σ) (s : σ) : List α → List Piece × σ
  | [] => ([], s)
  | a :: acts =>
    let (ps, s) := does s a
    let (qs, s) := runBy does s acts
    (ps ++ qs, s)

/-- The pieces drawn in the course of some acts, and the bag behind them. -/
def run (b : Bag) (acts : List Act) : List Piece × Bag := runBy does b acts

/-- How many of the acts draw. -/
def draws (acts : List Act) : Nat := acts.count .draw

/-- The bag with some pieces put back in front of its queue. -/
def behind (ps : List Piece) (b : Bag) : Bag := { b with queue := ps ++ b.queue }

/-- The bag from which a draw takes the first piece. -/
def stocked (b : Bag) : Bag := if b.queue.isEmpty then b.refill else b

/-- Taking `ps` from the front leaves `b'`, some more bags being shuffled in between. -/
def Yields (b : Bag) (ps : List Piece) (b' : Bag) : Prop := ∃ k, refill^[k] b = behind ps b'

/-- The pieces to come from a bag begin with `ps`. -/
def Deals (b : Bag) (ps : List Piece) : Prop := ∃ k, ps <+: (refill^[k] b).queue

variable {b b' b'' : Bag} {ps qs : List Piece}

theorem behind_refill (ps : List Piece) : Function.Semiconj (behind ps) refill refill := by
  intro b
  simp only [behind, refill, List.append_assoc]

theorem iterate_refill_behind (k : Nat) (ps : List Piece) (b : Bag) :
    refill^[k] (behind ps b) = behind ps (refill^[k] b) :=
  ((behind_refill ps).iterate_right k b).symm

theorem queue_isPrefix_iterate (b : Bag) {j k : Nat} (h : j ≤ k) :
    (refill^[j] b).queue <+: (refill^[k] b).queue := by
  induction k, h using Nat.le_induction with
  | base => exact List.prefix_rfl
  | succ k _ ih =>
    rw [Function.iterate_succ_apply']
    exact ih.trans (List.prefix_append _ _)

theorem lt_queued_fill (n : Nat) (b : Bag) : n < (b.fill n).queued := by
  fun_induction fill n b with
  | case1 b h => exact h
  | case2 b h ih => exact ih

theorem Yields.refl (b : Bag) : b.Yields [] b := ⟨0, rfl⟩

theorem Yields.trans (h : b.Yields ps b') (h' : b'.Yields qs b'') : b.Yields (ps ++ qs) b'' := by
  obtain ⟨k, hk⟩ := h
  obtain ⟨j, hj⟩ := h'
  refine ⟨j + k, ?_⟩
  rw [Function.iterate_add_apply, hk, iterate_refill_behind, hj]
  simp only [behind, List.append_assoc]

theorem yields_refill (b : Bag) : b.Yields [] b.refill := ⟨1, rfl⟩

theorem yields_fill (n : Nat) (b : Bag) : b.Yields [] (b.fill n) := by
  fun_induction fill n b with
  | case1 b h => exact .refl b
  | case2 b h ih => exact (yields_refill b).trans ih

theorem yields_stocked (b : Bag) : b.Yields [] b.stocked := by
  unfold stocked
  split
  · exact yields_refill b
  · exact .refl b

theorem stocked_ne_nil (b : Bag) : b.stocked.queue ≠ [] := by
  unfold stocked
  split
  · apply List.ne_nil_of_length_pos
    change 0 < b.refill.queued
    rw [queued_refill]
    omega
  · next h =>
    rwa [List.isEmpty_iff] at h

/-- A draw takes the first piece of the queue; there always is one. -/
theorem stocked_eq_behind (b : Bag) : b.stocked = behind [b.draw.1] b.draw.2 := by
  obtain ⟨p, ps, hq⟩ := List.exists_cons_of_ne_nil b.stocked_ne_nil
  have hdraw : b.draw = (p, { b.stocked with queue := ps }) := by
    unfold stocked at hq ⊢
    unfold draw
    dsimp only
    rw [hq]
  rw [hdraw]
  change b.stocked = { b.stocked with queue := p :: ps }
  rw [← hq]

theorem yields_draw (b : Bag) : b.Yields [b.draw.1] b.draw.2 := by
  obtain ⟨k, hk⟩ := yields_stocked b
  refine ⟨k, ?_⟩
  rw [hk, stocked_eq_behind]
  rfl

section

variable {σ α : Type} {does : σ → α → List Piece × σ}

/-- What each act takes from a bag, a run takes from it. -/
theorem yields_runBy (bag : σ → Bag) (h : ∀ s a, (bag s).Yields (does s a).1 (bag (does s a).2))
    (s : σ) (acts : List α) : (bag s).Yields (runBy does s acts).1 (bag (runBy does s acts).2) := by
  induction acts generalizing s with
  | nil => exact .refl (bag s)
  | cons a acts ih => exact (h s a).trans (ih _)

theorem length_runBy [DecidableEq α] {x : α}
    (h : ∀ s a, (does s a).1.length = if a = x then 1 else 0) (s : σ) (acts : List α) :
    (runBy does s acts).1.length = acts.count x := by
  induction acts generalizing s with
  | nil => rfl
  | cons a acts ih =>
    change ((does s a).1 ++ (runBy does (does s a).2 acts).1).length = _
    rw [List.length_append, h, ih, List.count_cons, Nat.add_comm]
    simp only [beq_iff_eq]

end

theorem yields_does (b : Bag) (a : Act) : b.Yields (b.does a).1 (b.does a).2 := by
  cases a with
  | draw => exact yields_draw b
  | peek i => exact yields_fill i b
  | preview => exact yields_fill 4 b

theorem yields_run (b : Bag) (acts : List Act) : b.Yields (b.run acts).1 (b.run acts).2 :=
  yields_runBy id yields_does b acts

theorem length_run (b : Bag) (acts : List Act) : (b.run acts).1.length = draws acts := by
  apply length_runBy
  intro b a
  cases a <;> rfl

theorem drawMany_eq_run (n : Nat) (b : Bag) : b.drawMany n = b.run (List.replicate n .draw) := by
  induction n generalizing b with
  | zero => rfl
  | succ n ih =>
    change (b.draw.1 :: (b.draw.2.drawMany n).1, (b.draw.2.drawMany n).2) = _
    rw [ih]
    rfl

theorem length_drawMany (n : Nat) (b : Bag) : (b.drawMany n).1.length = n := by
  rw [drawMany_eq_run, length_run]
  exact List.count_replicate_self

theorem deals_nil (b : Bag) : b.Deals [] := ⟨0, List.nil_prefix⟩

theorem deals_queue (b : Bag) : b.Deals b.queue := ⟨0, List.prefix_rfl⟩

theorem Yields.deals (h : b.Yields ps b') (hd : b'.Deals qs) : b.Deals (ps ++ qs) := by
  obtain ⟨k, hk⟩ := h
  obtain ⟨j, hj⟩ := hd
  refine ⟨j + k, ?_⟩
  rw [Function.iterate_add_apply, hk, iterate_refill_behind]
  exact (List.prefix_append_right_inj ps).mpr hj

/-- What is taken is what was to come. -/
theorem Yields.deals_taken (h : b.Yields ps b') : b.Deals ps := by
  have hd := h.deals (deals_nil b')
  rwa [List.append_nil] at hd

theorem deals_run (b : Bag) (acts : List Act) : b.Deals (b.run acts).1 :=
  (yields_run b acts).deals_taken

theorem deals_drawMany (n : Nat) (b : Bag) : b.Deals (b.drawMany n).1 := by
  rw [drawMany_eq_run]
  exact deals_run b _

theorem deals_preview (b : Bag) : b.Deals b.preview.1.toList := by
  have hfront : b.preview.1.toList <+: (b.fill 4).queue := by
    rw [List.prefix_iff_getElem?]
    intro i hi
    have h5 : i < 5 := by simpa using hi
    have hq : i < (b.fill 4).queue.length :=
      Nat.lt_of_le_of_lt (Nat.le_of_lt_succ h5) (lt_queued_fill 4 b)
    simp [preview, hq]
  obtain ⟨k, hk⟩ := yields_fill 4 b
  refine ⟨k, ?_⟩
  rw [hk]
  exact hfront

/-- There is only one sequence. -/
theorem Deals.isPrefix (h : b.Deals ps) (h' : b.Deals qs) (hl : ps.length ≤ qs.length) :
    ps <+: qs := by
  obtain ⟨j, hj⟩ := h
  obtain ⟨k, hk⟩ := h'
  exact List.prefix_of_prefix_length_le
    (hj.trans (queue_isPrefix_iterate b (Nat.le_max_left j k)))
    (hk.trans (queue_isPrefix_iterate b (Nat.le_max_right j k))) hl

theorem Deals.unique (h : b.Deals ps) (h' : b.Deals qs) (hl : ps.length = qs.length) : ps = qs :=
  (h.isPrefix h' (Nat.le_of_eq hl)).eq_of_length hl

theorem Deals.getElem?_eq {i : Nat} (h : b.Deals ps) (h' : b.Deals qs) (hp : i < ps.length)
    (hq : i < qs.length) : ps[i]? = qs[i]? := by
  rcases Nat.le_total ps.length qs.length with hl | hl
  · rw [List.prefix_iff_getElem?.mp (h.isPrefix h' hl) i hp, List.getElem?_eq_getElem hp]
  · rw [List.prefix_iff_getElem?.mp (h'.isPrefix h hl) i hq, List.getElem?_eq_getElem hq]

/-- As far as it is queued, the sequence is read off the queue. -/
theorem getElem?_run_fill {n i : Nat} (b : Bag) {acts : List Act} (hi : i ≤ n) (ha : i < draws acts) :
    ((b.fill n).run acts).1[i]? = some ((b.fill n).queue.getD i .I) := by
  have hq : i < (b.fill n).queue.length := Nat.lt_of_le_of_lt hi (lt_queued_fill n b)
  have hp : i < ((b.fill n).run acts).1.length := by
    rwa [length_run]
  rw [(deals_run _ acts).getElem?_eq (deals_queue _) hp hq, List.getD_eq_getElem?_getD,
    List.getElem?_eq_getElem hq, Option.getD_some]

/-- What is drawn from a bag in a number of draws is settled, whoever looks ahead in between. A look at
the piece `i` draws ahead shows what the draw behind the next `i` gives, and a preview shows the next
five. A bag whose sequence is started anew deals like a new one. -/
theorem draws_unswayed :
    (∀ (b : Bag) (acts acts' : List Act), draws acts = draws acts' →
        (b.run acts).1 = (b.run acts').1) ∧
      (∀ (b : Bag) (i : Nat) (acts : List Act), i < draws acts →
        ((b.peek i).2.run acts).1[i]? = some (b.peek i).1) ∧
      (∀ (b : Bag) (j : Fin 5) (acts : List Act), j < draws acts →
        (b.preview.2.run acts).1[j.val]? = some b.preview.1[j]) ∧
      ∀ (b : Bag) (seed : UInt64) (acts acts' : List Act), draws acts = draws acts' →
        ((b.reseed seed).run acts).1 = ((ofSeed seed).run acts').1 := by
  have hsame (b : Bag) (acts acts' : List Act) (h : draws acts = draws acts') :
      (b.run acts).1 = (b.run acts').1 := by
    apply (deals_run b acts).unique (deals_run b acts')
    rw [length_run, length_run, h]
  refine ⟨hsame, ?_, ?_, fun b seed => hsame (ofSeed seed)⟩
  · intro b i acts hi
    exact getElem?_run_fill b (Nat.le_refl i) hi
  · intro b j acts hj
    have hshown : b.preview.1[j] = (b.fill 4).queue.getD j.val .I := by
      simp [preview]
    rw [hshown]
    exact getElem?_run_fill b (Nat.le_of_lt_succ j.isLt) hj

/-- Seed `7` deals the same three pieces whether or not somebody looks thirty pieces ahead. -/
theorem three_draws_of_seven :
    let acts : List Act := [.preview, .draw, .peek 30, .draw, .draw]
    ((ofSeed 7).run acts).1 = ((ofSeed 7).run [.draw, .draw, .draw]).1 ∧
      ((ofSeed 7).run [.draw, .draw, .draw]).1 = [.I, .J, .L] ∧
      (((ofSeed 7).peek 2).2.run acts).1[2]? = some ((ofSeed 7).peek 2).1 := by
  obtain ⟨hsame, hpeek, -, -⟩ := draws_unswayed
  exact ⟨hsame _ _ _ rfl, by decide, hpeek _ _ _ (by decide)⟩

end BlockDuel.Bag
