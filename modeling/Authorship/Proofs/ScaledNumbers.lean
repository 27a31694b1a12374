import Authorship.Proofs.NumberParts
import Authorship.Proofs.DoubleErrors

/-
Scaling by a power of ten does not overflow below the greatest double. A product of positive doubles
grows with both of them, so a significand for each of the greatest powers shows it for all.
-/
namespace Authorship

open Float.Model (UnpackedFloat Format)
open Float.Model.UnpackedFloat

variable {u v : UnpackedFloat}

theorem not_above_values (order : NotAbove u v) (left : Rounded u) (right : Rounded v) :
    |finiteValue u| ≤ |finiteValue v| := by
  cases v with
  | finite t n f h' =>
    cases u with
    | zero s =>
      have nothing : finiteValue (.zero s) = 0 := rfl
      rw [nothing, abs_zero]
      exact abs_nonneg _
    | finite s m e h =>
      have notBefore : (compare f e).then (compare n m) ≠ .lt := by
        rw [Ne, Ordering.then_eq_lt, Int.compare_eq_lt, Int.compare_eq_eq, Nat.compare_eq_lt]
        simp only [NotAbove] at order
        omega
      rw [Ne, compare_positive h' h right left, not_lt] at notBefore
      rw [← finite_value_abs, ← finite_value_abs]
      exact notBefore
    | _ => exact absurd order id
  | _ => cases u <;> exact absurd order id

theorem not_above_finite (order : NotAbove u v) : u.isFinite = true ∧ v.isFinite = true := by
  cases v with
  | finite t n f h' =>
    cases u with
    | zero s => exact ⟨rfl, rfl⟩
    | finite s m e h => exact ⟨rfl, rfl⟩
    | _ => exact absurd order id
  | _ => cases u <;> exact absurd order id

theorem product_finite_of_le {x y x' y' : Float} (finite : x.isFinite = true)
    (finite' : y.isFinite = true) (great : x'.isFinite = true) (great' : y'.isFinite = true)
    (le : |valueOf x| ≤ |valueOf x'|) (le' : |valueOf y| ≤ |valueOf y'|)
    (product : (x' * y').isFinite = true) : (x * y).isFinite = true := by
  rw [double_product_finite_iff great great', abs_mul] at product
  rw [double_product_finite_iff finite finite', abs_mul]
  exact (mul_le_mul le le' (abs_nonneg _) (abs_nonneg _)).trans_lt product

theorem doubles_not_above {x y : Float} (order : NotAbove x.toModel.unpack y.toModel.unpack) :
    x.isFinite = true ∧ y.isFinite = true ∧ |valueOf x| ≤ |valueOf y| := by
  obtain ⟨finite, finite'⟩ := not_above_finite order
  have finite : x.isFinite = true := finite
  have finite' : y.isFinite = true := finite'
  rw [finite_value_of finite, finite_value_of finite']
  exact ⟨finite, finite', not_above_values order (double_rounded x) (double_rounded y)⟩

theorem count_values {m n : Nat} (le : m ≤ n) (small : n < 2 ^ 256) :
    (Scalar.count m : Float).isFinite = true ∧
      |valueOf (Scalar.count m : Float)| ≤ |valueOf (Scalar.count n : Float)| := by
  rcases Nat.eq_zero_or_pos m with rfl | positive
  · have nothing : valueOf (Scalar.count 0 : Float) = 0 := value_zero
    rw [nothing, abs_zero]
    exact ⟨zero_finite, abs_nonneg _⟩
  · obtain ⟨finite, -, values⟩ := doubles_not_above (counts_in_order positive le small)
    exact ⟨finite, values⟩

namespace Json

theorem small_powers : ∀ n < 23, (powerOfTen n).isFinite = true ∧
    (Scalar.zero : Float) ≤ powerOfTen n ∧ powerOfTen n ≤ powerOfTen 23 := by
  decide +kernel

/-- A thousand has ten bits. -/
theorem power_length {n k : Nat} (le : n ≤ 3 * k) : (10 ^ n).log2 ≤ 10 * k := by
  have short : 10 ^ n < 2 ^ (10 * k + 1) := by
    calc 10 ^ n ≤ 10 ^ (3 * k) := Nat.pow_le_pow_right (by decide) le
      _ = (10 ^ 3) ^ k := Nat.pow_mul ..
      _ ≤ (2 ^ 10) ^ k := Nat.pow_le_pow_left (by decide) k
      _ = 2 ^ (10 * k) := (Nat.pow_mul ..).symm
      _ < 2 ^ (10 * k + 1) := Nat.pow_lt_pow_right (by decide) (Nat.lt_succ_self _)
  exact log2_at_most short

theorem power_nearest {n : Nat} (large : 23 ≤ n) (most : n ≤ 288) :
    (powerOfTen n).toModel.unpack = nearest (10 ^ n) := by
  have length := power_length (n := n) (k := 96) most
  have positive : 0 < 10 ^ n := Nat.pow_pos (by decide)
  rw [powerOfTen, Float.ofScientific, dif_neg (by omega)]
  change (Float.Model.pack (UnpackedFloat.ofScientific Format.binary64 1 n)).unpack = _
  rw [scientific_nearest Nat.one_pos (by omega), Nat.one_mul]
  exact unpacked_nearest positive (by omega)

theorem powers_in_order {n k : Nat} (large : 23 ≤ n) (le : n ≤ k) (most : k ≤ 288) :
    (powerOfTen n).isFinite = true ∧ |valueOf (powerOfTen n)| ≤ |valueOf (powerOfTen k)| := by
  have order : NotAbove (powerOfTen n).toModel.unpack (powerOfTen k).toModel.unpack := by
    rw [power_nearest large (by omega), power_nearest (by omega) most]
    exact nearest_mono (Nat.pow_pos (by decide)) (Nat.pow_le_pow_right (by decide) le)
  obtain ⟨finite, -, values⟩ := doubles_not_above order
  exact ⟨finite, values⟩

theorem power_values {n : Nat} (most : n ≤ 288) :
    (powerOfTen n).isFinite = true ∧ |valueOf (powerOfTen n)| ≤ |valueOf (powerOfTen 288)| := by
  by_cases small : n < 23
  · obtain ⟨finite, nonneg, atMost⟩ := small_powers n small
    obtain ⟨finite', values⟩ := powers_in_order (n := 23) (by decide) (by decide) (Nat.le_refl 288)
    refine ⟨finite, le_trans ?_ values⟩
    rw [double_le_iff_value zero_number (finite_is_number finite), value_zero] at nonneg
    rw [double_le_iff_value (finite_is_number finite) (finite_is_number finite')] at atMost
    rw [abs_of_nonneg nonneg]
    exact atMost.trans (le_abs_self _)
  · exact powers_in_order (by omega) most (Nat.le_refl 288)

def roundedLimit : Nat := (2 ^ 54 - 3) * 2 ^ 970

def greatestSignificand (n : Nat) : Nat := min (significandLimit - 1) (roundedLimit / 10 ^ n)

theorem greatest_products : ∀ k < 21, (powerOfTen (288 + k)).isFinite = true ∧
    (Float.ofNat (greatestSignificand (288 + k)) * powerOfTen (288 + k)).isFinite = true := by
  decide +kernel

theorem greatest_significand_short : greatestSignificand 288 = significandLimit - 1 := by
  decide +kernel

theorem limit_below_power : roundedLimit < 10 ^ (greatestPower + 1) := by
  decide +kernel

/-- Below 288 a product is at most the one with this power, and from there on each power has its own
greatest significand. -/
theorem product_finite {s n : Nat} (small : s < significandLimit)
    (within : s * 10 ^ n ≤ roundedLimit) (most : n ≤ greatestPower) :
    (Float.ofNat s * powerOfTen n).isFinite = true := by
  obtain ⟨k, few, power, significand⟩ : ∃ k < 21, ((powerOfTen n).isFinite = true ∧
      |valueOf (powerOfTen n)| ≤ |valueOf (powerOfTen (288 + k))|) ∧
        s ≤ greatestSignificand (288 + k) := by
    by_cases low : n ≤ 288
    · refine ⟨0, by decide, power_values low, ?_⟩
      rw [Nat.add_zero, greatest_significand_short]
      omega
    · rw [greatestPower] at most
      have exponent : n = 288 + (n - 288) := by omega
      have few : n - 288 < 21 := by omega
      have fits : s ≤ roundedLimit / 10 ^ n :=
        (Nat.le_div_iff_mul_le (Nat.pow_pos (by decide))).mpr within
      refine ⟨n - 288, few, ?_, ?_⟩
      · rw [← exponent]
        exact ⟨exponent ▸ (greatest_products (n - 288) few).1, le_rfl⟩
      · rw [← exponent]
        exact Nat.le_min.mpr ⟨Nat.le_sub_one_of_lt small, fits⟩
  obtain ⟨finite, product⟩ := greatest_products k few
  have short : greatestSignificand (288 + k) < 2 ^ 256 := by
    have limit : significandLimit ≤ 2 ^ 256 := by decide
    have least := Nat.min_le_left (significandLimit - 1) (roundedLimit / 10 ^ (288 + k))
    have some : 0 < significandLimit := by decide
    exact Nat.lt_of_le_of_lt least (by omega)
  obtain ⟨finite', values⟩ := count_values significand short
  have great := (count_values (Nat.le_refl (greatestSignificand (288 + k))) short).1
  exact product_finite_of_le finite' power.1 great finite values power.2 product

theorem finite_not_infinite {x : Float} (finite : x.isFinite = true) : x.isInf = false := by
  have finite : x.toModel.unpack.isFinite = true := finite
  change x.toModel.unpack.isInf = false
  cases kind : x.toModel.unpack with
  | infinity s =>
    rw [kind] at finite
    contradiction
  | _ => rfl

/-- A significand that stands for so little is never too large for its power of ten. -/
theorem scale_up {s n : Nat} (small : s < significandLimit) (within : s * 10 ^ n ≤ roundedLimit) :
    ∃ y, scaleByTen 3 (Float.ofNat s) n = some y := by
  rw [scaleByTen, Int.natAbs_natCast]
  split
  · rename_i most
    rw [if_pos (Int.natCast_nonneg n)]
    dsimp only
    rw [finite_not_infinite (product_finite small within most)]
    exact ⟨_, rfl⟩
  · rename_i huge
    have nothing : s = 0 := by
      by_contra some
      have large : 10 ^ (greatestPower + 1) ≤ 10 ^ n :=
        Nat.pow_le_pow_right (by decide) (Nat.lt_of_not_le huge)
      have scaled : 10 ^ n ≤ s * 10 ^ n := Nat.le_mul_of_pos_left _ (Nat.pos_of_ne_zero some)
      exact absurd limit_below_power (Nat.not_lt_of_le (large.trans (scaled.trans within)))
    have zero : (Float.ofNat 0 == 0.0) = true := by decide +kernel
    rw [nothing, if_pos zero]
    exact ⟨_, rfl⟩

end Json
end Authorship
