import BlockDuel.Generator
import Mathlib.Data.List.FinRange
import Mathlib.Logic.Function.Iterate

/-!
Shuffling. Each step exchanges two places, so a shuffled list has the same elements, each as often as
before. Which places those are depends on the generator and on how many elements there are, never on the
elements. While the length fits a 32-bit word no step reduces below zero or reaches past the end.
-/
namespace BlockDuel.Generator

variable {α β : Type}

/-- The generator after some numbers were drawn from it. -/
def after (g : Generator) (n : Nat) : Generator := (fun g => g.next.2)^[n] g

theorem after_succ (g : Generator) (n : Nat) : g.after (n + 1) = g.next.2.after n := rfl

theorem swapIfInBounds_perm (a : Array α) (i j : Nat) : (a.swapIfInBounds i j).Perm a := by
  unfold Array.swapIfInBounds
  split
  · split
    · exact Array.swap_perm _ _
    · exact .rfl
  · exact .rfl

theorem map_swapIfInBounds (f : α → β) (a : Array α) (i j : Nat) :
    (a.map f).swapIfInBounds i j = (a.swapIfInBounds i j).map f := by
  apply Array.ext
  · simp
  · intro k _ _
    simp only [Array.getElem_map, Array.getElem_swapIfInBounds, Array.size_map]
    split
    · rfl
    · split <;> rfl

theorem shuffleFrom_perm (i : Nat) (a : Array α) (g : Generator) : (shuffleFrom i a g).1.Perm a := by
  induction i generalizing a g with
  | zero => exact .rfl
  | succ i ih => exact (ih _ _).trans (swapIfInBounds_perm a _ _)

/-- Whatever numbers the generator shows, shuffling rearranges. -/
theorem shuffle_perm (g : Generator) (as : List α) : (g.shuffle as).1.Perm as :=
  (shuffleFrom_perm (as.length - 1) as.toArray g).toList

/-- One number is drawn for each exchange. -/
theorem shuffleFrom_after (i : Nat) (a : Array α) (g : Generator) : (shuffleFrom i a g).2 = g.after i := by
  induction i generalizing a g with
  | zero => rfl
  | succ i ih => rw [shuffleFrom, ih, after_succ]

theorem shuffleFrom_map (f : α → β) (i : Nat) (a : Array α) (g : Generator) :
    (shuffleFrom i (a.map f) g).1 = (shuffleFrom i a g).1.map f := by
  induction i generalizing a g with
  | zero => rfl
  | succ i ih => rw [shuffleFrom, map_swapIfInBounds, ih, shuffleFrom]

theorem shuffle_after (g : Generator) (as : List α) : (g.shuffle as).2 = g.after (as.length - 1) :=
  shuffleFrom_after _ _ g

theorem shuffle_map (g : Generator) (f : α → β) (as : List α) :
    (g.shuffle (as.map f)).1 = (g.shuffle as).1.map f := by
  have hfrom := shuffleFrom_map f (as.length - 1) as.toArray g
  rw [List.map_toArray] at hfrom
  rw [shuffle, List.length_map, hfrom, Array.toList_map, shuffle]

/-- Exchanges two places that the array has. -/
def exchange? (a : Array α) (i j : Nat) : Option (Array α) :=
  if h : i < a.size ∧ j < a.size then some (a.swap i j h.1 h.2) else none

/-- Exchanges as `shuffleFrom` does, except that it fails where it would reduce below zero or exchange a place
that the array does not have. -/
def shuffleFrom? : Nat → Array α → Generator → Option (Array α × Generator)
  | 0, a, g => some (a, g)
  | i + 1, a, g => do
    let drawn := g.below? (UInt32.ofNat (i + 2))
    let j ← drawn.1
    let a ← exchange? a (i + 1) j.toNat
    shuffleFrom? i a drawn.2

/-- Shuffles, or fails at the first step that cannot be made. -/
def shuffle? (g : Generator) (as : List α) : Option (List α × Generator) :=
  (shuffleFrom? (as.length - 1) as.toArray g).map fun (a, g) => (a.toList, g)

theorem exchange?_of_lt {a : Array α} {i j : Nat} (hi : i < a.size) (hj : j < a.size) :
    exchange? a i j = some (a.swapIfInBounds i j) := by
  rw [exchange?, dif_pos ⟨hi, hj⟩, Array.swapIfInBounds_def, dif_pos hi, dif_pos hj]

theorem below?_of_ne {bound : UInt32} (hb : bound ≠ 0) (g : Generator) :
    g.below? bound = (some (g.next.1 % bound), g.next.2) :=
  Prod.ext (if_neg hb) rfl

theorem below?_zero (g : Generator) : g.below? 0 = (none, g.next.2) := rfl

theorem ofNat_ne_zero {k : Nat} (hk : 0 < k) (hw : k < UInt32.size) : UInt32.ofNat k ≠ 0 := by
  intro h
  have hzero : k = 0 := by rw [← UInt32.toNat_ofNat_of_lt' hw, h]; rfl
  exact Nat.ne_of_gt hk hzero

/-- What a word leaves below a number that fits a word is less than that number. -/
theorem toNat_mod_lt (n : UInt32) {k : Nat} (hk : 0 < k) (hw : k < UInt32.size) :
    (n % UInt32.ofNat k).toNat < k := by
  rw [UInt32.toNat_mod, UInt32.toNat_ofNat_of_lt' hw]
  exact Nat.mod_lt _ hk

theorem shuffleFrom?_of_lt {i : Nat} {a : Array α} (hi : i ≤ a.size - 1) (hw : i + 1 < UInt32.size)
    (g : Generator) : shuffleFrom? i a g = some (shuffleFrom i a g) := by
  induction i generalizing a g with
  | zero => rfl
  | succ i ih =>
    have hbound : UInt32.ofNat (i + 2) ≠ 0 := ofNat_ne_zero (Nat.succ_pos _) hw
    have hdrawn : (g.next.1 % UInt32.ofNat (i + 2)).toNat < i + 2 :=
      toNat_mod_lt _ (Nat.succ_pos _) hw
    have hswap : exchange? a (i + 1) (g.next.1 % UInt32.ofNat (i + 2)).toNat =
        some (a.swapIfInBounds (i + 1) (g.next.1 % UInt32.ofNat (i + 2)).toNat) :=
      exchange?_of_lt (by omega) (by omega)
    rw [shuffleFrom?, below?_of_ne hbound]
    dsimp only [Option.bind_eq_bind, Option.bind_some]
    rw [hswap]
    exact ih (by rw [Array.size_swapIfInBounds]; omega) (by omega) g.next.2

/-- A step whose bound is one more than the largest word finds zero for a bound, if no step before it fails. -/
theorem shuffleFrom?_of_le {i : Nat} (hw : UInt32.size ≤ i + 1) (a : Array α) (g : Generator) :
    shuffleFrom? i a g = none := by
  induction i generalizing a g with
  | zero => exact absurd hw (by decide)
  | succ i ih =>
    by_cases hnow : i + 2 = UInt32.size
    · have hzero : UInt32.ofNat (i + 2) = 0 := by rw [hnow]; rfl
      rw [shuffleFrom?, hzero, below?_zero]
      rfl
    · rw [shuffleFrom?]
      simp only [Option.bind_eq_bind, Option.bind_eq_none_iff]
      exact fun _ _ _ _ => ih (by omega) _ _

theorem shuffle?_of_lt {as : List α} (hw : as.length < UInt32.size) (g : Generator) :
    g.shuffle? as = some (g.shuffle as) := by
  have htwo : 1 < UInt32.size := by decide
  have htop : as.length - 1 + 1 < UInt32.size := by omega
  have hfrom : shuffleFrom? (as.length - 1) as.toArray g =
      some (shuffleFrom (as.length - 1) as.toArray g) :=
    shuffleFrom?_of_lt (Nat.le_refl _) htop g
  rw [shuffle?, hfrom]
  rfl

theorem shuffle?_of_le {as : List α} (hw : UInt32.size ≤ as.length) (g : Generator) : g.shuffle? as = none := by
  have hfrom : shuffleFrom? (as.length - 1) as.toArray g = none := shuffleFrom?_of_le (by omega) _ g
  rw [shuffle?, hfrom]
  rfl

/-- While a list's length fits a word, shuffling it fails at no step: it gives a rearrangement of the list,
draws a number for each element but one, and carries the places of the list where it carries them whatever
the elements are. A longer list cannot be shuffled. -/
theorem shuffle_rearranges (g : Generator) (as : List α) :
    (as.length < UInt32.size → ∃ bs : List α,
      g.shuffle? as = some (bs, g.after (as.length - 1)) ∧
      g.shuffle as = (bs, g.after (as.length - 1)) ∧ bs.Perm as ∧
      (∀ (β : Type) (f : α → β), g.shuffle? (as.map f) = some (bs.map f, g.after (as.length - 1))) ∧
      bs = (g.shuffle (List.finRange as.length)).1.map as.get) ∧
    (UInt32.size ≤ as.length → g.shuffle? as = none) := by
  refine ⟨fun hw => ⟨(g.shuffle as).1, ?_, ?_, shuffle_perm g as, fun β f => ?_, ?_⟩,
    fun hw => shuffle?_of_le hw g⟩
  · rw [shuffle?_of_lt hw, ← shuffle_after]
  · rw [← shuffle_after]
  · have hf : (as.map f).length < UInt32.size := by rwa [List.length_map]
    rw [shuffle?_of_lt hf, ← shuffle_map, ← List.length_map f, ← shuffle_after]
  · rw [← shuffle_map]
    exact congrArg (fun bs => (g.shuffle bs).1) (List.map_get_finRange as).symm

/-- The letters of a word, two of them the same. -/
theorem shuffle_rearranges_letters :
    ∃ bs, (⟨7⟩ : Generator).shuffle? ['n', 'o', 'o', 'n'] = some (bs, (⟨7⟩ : Generator).after 3) ∧
      bs.Perm ['n', 'o', 'o', 'n'] := by
  obtain ⟨bs, hshuffle, -, hperm, -⟩ := (shuffle_rearranges ⟨7⟩ ['n', 'o', 'o', 'n']).1 (by decide)
  exact ⟨bs, hshuffle, hperm⟩

end BlockDuel.Generator
