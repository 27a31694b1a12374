import Authorship.Scalar
import Mathlib.Algebra.Order.Floor.Ring
import Mathlib.Data.Rat.Floor
import Mathlib.Tactic.Linarith

/-
Arithmetic on the rationals, where nothing is rounded and any two values compare.
-/
namespace Authorship.Scalar

@[simp] theorem exact_zero : (zero : Rat) = 0 := rfl

@[simp] theorem exact_one : (one : Rat) = 1 := rfl

@[simp] theorem exact_count (n : Nat) : (count n : Rat) = n := rfl

theorem exact_larger (a b : Rat) : larger a b = max a b := by
  rw [larger, max_def_lt]

theorem exact_clamp (low high x : Rat) : clamp low high x = min high (max low x) := by
  have raised : (if x < low then low else x) = max low x := by rw [max_comm, max_def_lt]
  simp only [clamp, raised]
  rw [min_def_lt]

theorem clamp_within {low high : Rat} (ordered : low ≤ high) (x : Rat) :
    low ≤ clamp low high x ∧ clamp low high x ≤ high := by
  rw [exact_clamp]
  exact ⟨le_min ordered (le_max_left _ _), min_le_left _ _⟩

theorem clamp_mono (low high : Rat) {x y : Rat} (le : x ≤ y) :
    clamp low high x ≤ clamp low high y := by
  rw [exact_clamp, exact_clamp]
  exact min_le_min_left high (max_le_max_left low le)

theorem exact_abs (x : Rat) : abs x = |x| := by
  rcases le_total 0 x with nonneg | nonpos
  · exact (Rat.abs_of_nonneg nonneg).trans (abs_of_nonneg nonneg).symm
  · exact (Rat.abs_of_nonpos nonpos).trans (abs_of_nonpos nonpos).symm

theorem exact_sum (xs : List Rat) : sum xs = xs.sum := by
  rw [List.sum_eq_foldl]
  rfl

/- A half goes away from zero, which for these numbers is up. -/
theorem exact_round {x : Rat} (nonneg : 0 ≤ x) : round x = (⌊x + 1 / 2⌋ : Rat) :=
  if_neg (not_lt.mpr nonneg)

theorem round_nearest {x : Rat} (nonneg : 0 ≤ x) : x - 1 / 2 < round x ∧ round x ≤ x + 1 / 2 := by
  rw [exact_round nonneg]
  have below := Int.floor_le (x + 1 / 2)
  have above := Int.lt_floor_add_one (x + 1 / 2)
  constructor <;> linarith

theorem exact_per_count (part whole : Nat) :
    (perCount part whole : Rat) = part / (max 1 whole : Nat) := by
  rw [perCount, per, exact_larger, exact_count, exact_count, exact_one, Nat.cast_max, Nat.cast_one]

theorem share_doubled {part part' : Nat} (whole : Nat) (grows : 2 * part ≤ part') :
    (perCount part whole : Rat) ≤ perCount part' (2 * whole) := by
  have positive (n : Nat) : (0 : Rat) < (max 1 n : Nat) := by
    exact_mod_cast Nat.lt_of_lt_of_le Nat.one_pos (Nat.le_max_left 1 n)
  have across : part * max 1 (2 * whole) ≤ part' * max 1 whole := by
    calc part * max 1 (2 * whole) ≤ part * (2 * max 1 whole) :=
          Nat.mul_le_mul_left part (by omega)
      _ = 2 * part * max 1 whole := by rw [Nat.mul_left_comm, Nat.mul_assoc]
      _ ≤ part' * max 1 whole := Nat.mul_le_mul_right _ grows
  rw [exact_per_count, exact_per_count, div_le_div_iff₀ (positive _) (positive _)]
  exact_mod_cast across

/- Roots and logarithms have no exact values in the rationals. What is said of measurements in exact
arithmetic holds whatever functions stand for them. -/
structure RootsAndLogs where
  sqrt : Rat → Rat
  ln : Rat → Rat
  log2 : Rat → Rat

@[reducible] def exactly (f : RootsAndLogs) : Analytic Rat where
  sqrt := f.sqrt
  ln := f.ln
  log2 := f.log2

def RootsAndLogs.rough : RootsAndLogs where
  sqrt x := (Nat.sqrt x.floor.toNat : Rat)
  ln x := 0.693 * (Nat.log2 x.floor.toNat : Rat)
  log2 x := (Nat.log2 x.floor.toNat : Rat)

end Authorship.Scalar
