import BlockDuel.Proofs.Bag.Shuffle
import Mathlib.Data.Nat.ModEq
import Mathlib.Dynamics.PeriodicPts.Lemmas
import Mathlib.Tactic.Ring

/-!
How long the generator goes on before it repeats itself: from any state through all the others. A draw
multiplies by one more than a multiple of four and adds an odd number. Drawing twice as often keeps that shape,
each of the powers of two being one higher, so it is only at the size of a word that the state comes back.
-/
namespace BlockDuel.Generator
open Function

theorem after_add (g : Generator) (m n : Nat) : g.after (m + n) = (g.after n).after m :=
  iterate_add_apply _ m n g

/-- The state as a place among all the states. -/
def place (g : Generator) : Fin (2 ^ 64) := ⟨g.state.toNat, g.state.toNat_lt⟩

theorem place_injective : Injective place := by
  rintro ⟨s⟩ ⟨s'⟩ h
  exact congrArg Generator.mk (UInt64.toNat_inj.mp (congrArg Fin.val h))

theorem eq_of_state_modEq {g g' : Generator} (h : g.state.toNat ≡ g'.state.toNat [MOD 2 ^ 64]) : g = g' :=
  place_injective (Fin.ext (Nat.ModEq.eq_of_lt_of_lt h g.place.isLt g'.place.isLt))

theorem state_next (g : Generator) : g.next.2.state.toNat ≡
    (1 + 2 ^ 2 * 1591034055961698251) * g.state.toNat + (2 * 721347520444481703 + 1) [MOD 2 ^ 64] := by
  change (advance g.state).toNat ≡ _ [MOD 2 ^ 64]
  rw [advance, UInt64.toNat_add, UInt64.toNat_mul, Nat.ModEq, Nat.mod_mod, Nat.add_mod_mod, Nat.add_comm]
  rfl

/-- What drawing two to the `k` times makes of any state. -/
theorem state_after_two_pow (k : Nat) : ∃ t u : Nat, ∀ g : Generator,
    (g.after (2 ^ k)).state.toNat ≡
      (1 + 2 ^ (k + 2) * t) * g.state.toNat + 2 ^ k * (2 * u + 1) [MOD 2 ^ 64] := by
  induction k with
  | zero =>
    refine ⟨1591034055961698251, 721347520444481703, fun g => ?_⟩
    rw [pow_zero, one_mul, zero_add]
    exact state_next g
  | succ k ih =>
    obtain ⟨t, u, hleap⟩ := ih
    -- The factor is squared, and the summand taken once as it is and once times the factor, which is odd: the
    -- one is still one more than a multiple of a power of two, the other an odd multiple of one.
    refine ⟨t + 2 ^ (k + 1) * t * t, u + 2 ^ k * t * (2 * u + 1), fun g => ?_⟩
    have htwice : g.after (2 ^ (k + 1)) = (g.after (2 ^ k)).after (2 ^ k) := by
      rw [pow_succ, mul_two, after_add]
    calc (g.after (2 ^ (k + 1))).state.toNat
      _ = ((g.after (2 ^ k)).after (2 ^ k)).state.toNat := by rw [htwice]
      _ ≡ (1 + 2 ^ (k + 2) * t) * (g.after (2 ^ k)).state.toNat + 2 ^ k * (2 * u + 1) [MOD 2 ^ 64] := hleap _
      _ ≡ (1 + 2 ^ (k + 2) * t) *
            ((1 + 2 ^ (k + 2) * t) * g.state.toNat + 2 ^ k * (2 * u + 1)) + 2 ^ k * (2 * u + 1) [MOD 2 ^ 64] :=
          ((hleap g).mul_left _).add_right _
      _ = _ := by ring

/-- As many draws as there are words change nothing. Half as many do, so that no fewer leave the state as it
was. -/
theorem minimalPeriod_next (g : Generator) : minimalPeriod (fun g : Generator => g.next.2) g = 2 ^ 64 := by
  have : Fact (Nat.Prime 2) := ⟨Nat.prime_two⟩
  refine minimalPeriod_eq_prime_pow (k := 63) (fun hhalf => ?_) ?_
  · obtain ⟨t, u, hleap⟩ := state_after_two_pow 63
    have hmod := hleap g
    rw [show g.after (2 ^ 63) = g from hhalf] at hmod
    have hmoved : (1 + 2 ^ (63 + 2) * t) * g.state.toNat + 2 ^ 63 * (2 * u + 1) =
        g.state.toNat + (2 ^ 64 * (2 * (t * g.state.toNat) + u) + 2 ^ 63) := by ring
    rw [hmoved] at hmod
    have hdvd : 2 ^ 64 ∣ 2 ^ 64 * (2 * (t * g.state.toNat) + u) + 2 ^ 63 :=
      (Nat.modEq_zero_iff_dvd).mp (Nat.ModEq.add_left_cancel' g.state.toNat hmod.symm)
    have hdvd' : 2 ^ 64 ∣ 2 ^ 63 := (Nat.dvd_add_right (Nat.dvd_mul_right _ _)).mp hdvd
    exact absurd hdvd' (by decide)
  · obtain ⟨t, u, hleap⟩ := state_after_two_pow 64
    refine eq_of_state_modEq ((hleap g).trans ?_)
    have hmoved : (1 + 2 ^ (64 + 2) * t) * g.state.toNat + 2 ^ 64 * (2 * u + 1) =
        g.state.toNat + 2 ^ 64 * (4 * (t * g.state.toNat) + 2 * u + 1) := by ring
    rw [hmoved]
    exact Nat.add_mul_mod_self_left _ _ _

theorem after_eq_self_iff (g : Generator) (n : Nat) : g.after n = g ↔ 2 ^ 64 ∣ n := by
  rw [← minimalPeriod_next g]
  exact isPeriodicPt_iff_minimalPeriod_dvd

/-- All the draws but one of a period undo a draw. -/
theorem next_injective : Injective fun g : Generator => g.next.2 := by
  have hback : LeftInverse (fun g : Generator => g.after (2 ^ 64 - 1)) fun g => g.next.2 := fun g =>
    calc g.next.2.after (2 ^ 64 - 1)
      _ = g.after (2 ^ 64 - 1 + 1) := (after_succ g _).symm
      _ = g := (after_eq_self_iff g _).mpr (Nat.dvd_refl _)
  exact hback.injective

theorem after_injective (n : Nat) : Injective fun g : Generator => g.after n :=
  next_injective.iterate n

/-- No state comes twice within a period. -/
theorem eq_of_after_eq {g : Generator} {m n : Nat} (hm : m < 2 ^ 64) (hn : n < 2 ^ 64)
    (h : g.after m = g.after n) : m = n := by
  have hiff := iterate_eq_iterate_iff_of_lt_minimalPeriod (f := fun g : Generator => g.next.2) (x := g)
    (m := m) (n := n) (by rwa [minimalPeriod_next]) (by rwa [minimalPeriod_next])
  exact hiff.mp h

/-- A period has as many states as there are places, and no state comes twice in it. -/
theorem exists_after_eq (g g' : Generator) : ∃ n, n < 2 ^ 64 ∧ g.after n = g' := by
  have hinj : Injective fun i : Fin (2 ^ 64) => (g.after i).place := fun i j hij =>
    Fin.ext (eq_of_after_eq i.isLt j.isLt (place_injective hij))
  obtain ⟨i, hi⟩ := Finite.surjective_of_injective hinj g'.place
  exact ⟨i, i.isLt, place_injective hi⟩

/-- The generator comes back to its state after as many draws as there are words, and after a multiple of that.
Until then it comes to every state, and to each once. However often two generators are drawn from, they come to
the same state only if they were in the same one before. -/
theorem full_period (g : Generator) :
    (∀ n, g.after n = g ↔ 2 ^ 64 ∣ n) ∧ (∀ g' : Generator, ∃! n, n < 2 ^ 64 ∧ g.after n = g') ∧
      ∀ (g' : Generator) (n : Nat), g.after n = g'.after n ↔ g = g' := by
  refine ⟨after_eq_self_iff g, fun g' => ?_, fun g' n => (after_injective n).eq_iff⟩
  obtain ⟨n, hn, h⟩ := exists_after_eq g g'
  exact ⟨n, ⟨hn, h⟩, fun m hm => eq_of_after_eq hm.1 hn (hm.2.trans h.symm)⟩

end BlockDuel.Generator
