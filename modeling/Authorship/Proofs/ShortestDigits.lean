import Authorship.Decimal.Shortest
import Mathlib

/-
The shortest digits of a number are between the ends of its rounding interval, on whichever grid
the search for them ends. So they are at most half a step above the number.
-/
namespace Authorship.Decimal

namespace Quotient

def value (x : Quotient) : Rat := x.num / x.den

theorem le_iff_value {a b : Quotient} (h : 0 < a.den) (h' : 0 < b.den) :
    a.le b = true ↔ a.value ≤ b.value := by
  rw [le, decide_eq_true_eq, value, value,
    div_le_div_iff₀ (Nat.cast_pos.mpr h) (Nat.cast_pos.mpr h')]
  norm_cast

theorem lt_iff_value {a b : Quotient} (h : 0 < a.den) (h' : 0 < b.den) :
    a.lt b = true ↔ a.value < b.value := by
  rw [lt, decide_eq_true_eq, value, value,
    div_lt_div_iff₀ (Nat.cast_pos.mpr h) (Nat.cast_pos.mpr h')]
  norm_cast

end Quotient

theorem scaled_den_positive (m : Nat) {base : Nat} (positive : 0 < base) (e : Int) :
    0 < (scaled m base e).den := by
  rw [scaled]
  split
  · exact Nat.one_pos
  · exact Nat.pow_pos positive

theorem scaled_value (m : Nat) {base : Nat} (positive : 0 < base) (e : Int) :
    (scaled m base e).value = m * (base : Rat) ^ e := by
  have nonzero : (base : Rat) ≠ 0 := Nat.cast_ne_zero.mpr (Nat.ne_of_gt positive)
  rw [scaled]
  split
  · rename_i above
    obtain ⟨k, rfl⟩ := Int.eq_ofNat_of_zero_le above
    simp [Quotient.value]
  · rename_i below
    obtain ⟨k, rfl⟩ : ∃ k : Nat, e = -k := ⟨(-e).toNat, by omega⟩
    simp [Quotient.value, div_eq_mul_inv]

variable {m : Nat} {e : Int}

theorem interval_low_positive (h : 0 < m) (e : Int) :
    0 < (roundingInterval m e).low.den ∧ 0 < (roundingInterval m e).low.value := by
  rw [roundingInterval]
  dsimp only
  split
  · rw [scaled_value _ Nat.two_pos]
    exact ⟨scaled_den_positive _ Nat.two_pos _,
      mul_pos (Nat.cast_pos.mpr (by omega)) (zpow_pos (by norm_num) _)⟩
  · rw [scaled_value _ Nat.two_pos]
    exact ⟨scaled_den_positive _ Nat.two_pos _,
      mul_pos (Nat.cast_pos.mpr (by omega)) (zpow_pos (by norm_num) _)⟩

theorem interval_high (m : Nat) (e : Int) :
    0 < (roundingInterval m e).high.den ∧
      (roundingInterval m e).high.value = (2 * m + 1) * 2 ^ (e - 1) := by
  have high : (roundingInterval m e).high = scaled (2 * m + 1) 2 (e - 1) := rfl
  rw [high, scaled_value _ Nat.two_pos]
  refine ⟨scaled_den_positive _ Nat.two_pos _, ?_⟩
  push_cast
  rfl

/-- A positive number at most half a step above `m * 2 ^ e`. -/
structure Found (d : Digits) (m : Nat) (e : Int) : Prop where
  some : 0 < d.digits
  atMost : d.digits * (10 : Rat) ^ d.exponent ≤ (2 * m + 1) * 2 ^ (e - 1)

theorem found_of_holds (h : 0 < m) {d : Digits}
    (holds : (roundingInterval m e).holds (scaled d.digits 10 d.exponent) = true) :
    Found d m e := by
  have den : 0 < (scaled d.digits 10 d.exponent).den := scaled_den_positive _ (by decide) _
  have ten : 0 < 10 := by decide
  have value := scaled_value d.digits ten d.exponent
  obtain ⟨lowDen, lowPositive⟩ := interval_low_positive h e
  obtain ⟨highDen, high⟩ := interval_high m e
  have between : (roundingInterval m e).low.value ≤ (scaled d.digits 10 d.exponent).value ∧
      (scaled d.digits 10 d.exponent).value ≤ (roundingInterval m e).high.value := by
    rw [Interval.holds] at holds
    split at holds
    · rw [Bool.and_eq_true, Quotient.le_iff_value lowDen den,
        Quotient.le_iff_value den highDen] at holds
      exact holds
    · rw [Bool.and_eq_true, Quotient.lt_iff_value lowDen den,
        Quotient.lt_iff_value den highDen] at holds
      exact ⟨holds.1.le, holds.2.le⟩
  rw [value, high] at between
  refine ⟨Nat.pos_of_ne_zero fun zero => ?_, by exact_mod_cast between.2⟩
  rw [zero, Nat.cast_zero, zero_mul] at between
  exact absurd between.1 (not_le_of_gt lowPositive)

theorem round_cases (x : Quotient) :
    x.round = x.num / x.den ∨ x.round = x.num / x.den + 1 := by
  rw [Quotient.round]
  split_ifs <;> simp

theorem on_grid_holds {x : Quotient} {i : Interval} {digits : Nat}
    (found : onGrid x i e = some digits) : i.holds (scaled digits 10 e) = true := by
  rw [onGrid] at found
  dsimp only at found
  split at found
  · rename_i both
    rw [Bool.and_eq_true] at both
    cases found
    rcases round_cases ⟨x.num * (scaled 1 10 e).den, x.den * (scaled 1 10 e).num⟩ with low | high
    · rw [low]
      exact both.1
    · rw [high]
      exact both.2
  · split at found
    · cases found
      assumption
    · split at found
      · cases found
        assumption
      · contradiction

theorem first_grid_found (h : 0 < m) (x : Quotient) (place : Int) (turns : Nat) :
    firstGrid x (roundingInterval m e) place turns = ⟨0, 0⟩ ∨
      Found (firstGrid x (roundingInterval m e) place turns) m e := by
  induction turns with
  | zero => exact Or.inl rfl
  | succ turns ih =>
    rw [firstGrid]
    split
    · rename_i digits found
      exact Or.inr (found_of_holds h (on_grid_holds found))
    · exact ih

/-- The result is zero only if no grid has a hit. -/
theorem shortest_found (h : 0 < m) (e : Int) :
    shortest m e = ⟨0, 0⟩ ∨ Found (shortest m e) m e :=
  first_grid_found h _ _ _

end Authorship.Decimal
