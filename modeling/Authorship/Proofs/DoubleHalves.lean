import Authorship.Proofs.DoubleShares
import Authorship.Proofs.DoubleSizes

/-
The larger of two counts makes up at least half of both, as doubles too: rounding takes twice a
count to twice the double next to it, so the order of the two carries over to their doubles, and one
half is a double itself, so a quotient that is at least one half stays so when it is rounded.
-/
namespace Authorship

open Float.Model (UnpackedFloat Format)
open Float.Model.UnpackedFloat

theorem nearest_mantissa_doubled {n : Nat} (positive : 0 < n) :
    nearestMantissa (2 * n) = nearestMantissa n := by
  have length : (2 * n).log2 = n.log2 + 1 := Nat.log2_two_mul (Nat.ne_of_gt positive)
  have halved : (ExtendedMantissa.ofMantissaAndAccuracy (2 * n * 2 ^ 52) .exact).shiftRightOne =
      ExtendedMantissa.ofMantissaAndAccuracy (n * 2 ^ 52) .exact := by
    simp [ExtendedMantissa.ofMantissaAndAccuracy, ExtendedMantissa.shiftRightOne, Nat.mul_assoc]
  rw [nearestMantissa, length, shift_one_first, halved, nearestMantissa]

/-- In the order of positive doubles the second is at least half of the first. -/
def NotAboveTwice : UnpackedFloat → UnpackedFloat → Prop
  | .finite _ m e _, .finite _ n f _ => e < f + 1 ∨ e = f + 1 ∧ m ≤ n
  | _, _ => False

theorem nearest_at_most_twice {m n : Nat} (positive : 0 < m) (le : m ≤ 2 * n) :
    NotAboveTwice (nearest m) (nearest n) := by
  have some : 0 < n := by omega
  have order := nearest_mono positive le
  have same := nearest_mantissa_doubled some
  have length : (2 * n).log2 = n.log2 + 1 := Nat.log2_two_mul (Nat.ne_of_gt some)
  rcases nearest_cases positive with ⟨low, high, h, eq⟩ | ⟨full, h, eq⟩ <;>
    rcases nearest_cases (show 0 < 2 * n by omega) with
      ⟨low', high', h', eq'⟩ | ⟨full', h', eq'⟩ <;>
    rcases nearest_cases some with ⟨low'', high'', h'', eq''⟩ | ⟨full'', h'', eq''⟩ <;>
    rw [eq, eq'] at order <;> rw [eq, eq''] <;> simp only [NotAbove, NotAboveTwice] at order ⊢ <;>
    omega

theorem divided_from_half {s t : Sign} {m n : Nat} {e f : Int} {h : 0 < m} {h' : 0 < n}
    (left : Rounded (.finite s m e h)) (right : Rounded (.finite t n f h'))
    (full : m.log2 = 52) (full' : n.log2 = 52)
    (order : NotAboveTwice (.finite t n f h') (.finite s m e h)) :
    SizeFrom (-1) (UnpackedFloat.div Format.binary64 (.finite s m e h) (.finite t n f h')) := by
  have low : 2 ^ 52 ≤ m := full ▸ Nat.log2_self_le (Nat.ne_of_gt h)
  have high : n < 2 ^ 53 := (Nat.log2_lt (Nat.ne_of_gt h')).mp (by omega)
  have exponent : quotientExponent m e n f = e - f - 53 := by
    rw [quotientExponent, full, full']
    simp only [NotAboveTwice] at order
    omega
  have places : (e - f - (e - f - 53)).toNat = 53 := by omega
  have fine := quotient_fine left right
  simp only [exponent, places, Nat.shiftLeft_eq] at fine
  simp only [UnpackedFloat.div, div_core_eq, exponent, places, Nat.shiftLeft_eq]
  -- Where the whole has the greater exponent it has at most the mantissa of the part.
  have large : 2 ^ (if f = e + 1 then 53 else 52) ≤ m * 2 ^ 53 / n := by
    rw [Nat.le_div_iff_mul_le h']
    simp only [NotAboveTwice] at order
    split
    · have le : n ≤ m := by omega
      rw [Nat.mul_comm]
      exact Nat.mul_le_mul_right _ le
    · exact Nat.mul_le_mul low high.le
  have some : 0 < m * 2 ^ 53 / n := Nat.lt_of_lt_of_le (Nat.two_pow_pos _) large
  have length := (Nat.le_log2 (Nat.ne_of_gt some)).mpr large
  refine rounded_from fine some (by decide) ?_
  simp only [NotAboveTwice] at order
  split at length <;> omega

theorem half_unpacked :
    (0.5 : Float).toModel.unpack = .finite .positive (2 ^ 52) (-53) (by decide) := by rfl

theorem half_le_of_size {x : Float} (size : SizeFrom (-1) x.toModel.unpack)
    (notBelow : NotBelowZero x.toModel.unpack) : 0.5 ≤ x := by
  have rounded := double_rounded x
  rw [double_le_iff, compareDoubles, half_unpacked]
  cases kind : x.toModel.unpack with
  | notANumber => simp [kind, NotBelowZero] at notBelow
  | zero s => simp [kind, SizeFrom] at size
  | infinity s =>
    rw [kind] at notBelow
    obtain rfl : s = .positive := notBelow
    exact Or.inl rfl
  | finite s m e h =>
    rw [kind] at size notBelow rounded
    obtain rfl : s = .positive := notBelow
    have above : -1 ≤ m.log2 + e := size
    have full : m.log2 = 52 := by
      have := rounded.2
      omega
    have low : 2 ^ 52 ≤ m := full ▸ Nat.log2_self_le (Nat.ne_of_gt h)
    change some ((compare (-53) e).then (compare (2 ^ 52) m)) = _ ∨
      some ((compare (-53) e).then (compare (2 ^ 52) m)) = _
    rcases Int.lt_or_eq_of_le (show -53 ≤ e by omega) with less | rfl
    · rw [Int.compare_eq_lt.mpr less]
      exact Or.inl rfl
    · rcases Nat.lt_or_eq_of_le low with less | same
      · rw [Nat.compare_eq_lt.mpr less]
        exact Or.inl rfl
      · rw [← same]
        exact Or.inr rfl

theorem half_le_quotient {part whole : Nat} (half : whole ≤ 2 * part) (some : 0 < whole)
    (small : whole < 2 ^ 256) (small' : part < 2 ^ 256) :
    0.5 ≤ (Scalar.count part / Scalar.count whole : Float) := by
  have positive : 0 < part := by omega
  obtain ⟨m, e, h, eq, full, -⟩ := count_finite positive small'
  obtain ⟨n, f, h', eq', full', -⟩ := count_finite some small
  have order : NotAboveTwice (Scalar.count whole : Float).toModel.unpack
      (Scalar.count part : Float).toModel.unpack := by
    rw [count_nearest some small, count_nearest positive small']
    exact nearest_at_most_twice some half
  have left := double_rounded (Scalar.count part : Float)
  have right := double_rounded (Scalar.count whole : Float)
  have notBelow : NotBelowZero (Scalar.count part / Scalar.count whole : Float).toModel.unpack :=
    divided_not_below part (by rw [eq']; trivial)
  refine half_le_of_size (packed_from (quotient_rounded left right) ?_) notBelow
  rw [eq, eq'] at order
  rw [eq] at left
  rw [eq'] at right
  rw [eq, eq']
  exact divided_from_half left right full full' order

end Authorship
