import Authorship.Proofs.DoubleValues

/-
How far a rounded result is from the exact one, and where it overflows. A sum is off by at most one
part in the 52 places that a mantissa has, a quotient by that or by the least double, and a result
is infinite exactly if the exact one is half a step beyond the greatest double.
-/
namespace Authorship

open Float.Model (UnpackedFloat Format)
open Float.Model.UnpackedFloat

variable {u v : UnpackedFloat} {s t : Sign} {m n : Nat} {e f : Int}

def overflowLimit : Rat := (2 ^ 54 - 1) * 2 ^ (970 : Int)

theorem overflow_limit_within :
    (2 : Rat) ^ (1023 : Int) ≤ overflowLimit ∧ overflowLimit ≤ 2 ^ (1024 : Int) := by
  have doubled (k : Nat) : (2 : Rat) ^ (970 + k : Int) = 2 ^ k * 2 ^ (970 : Int) := by
    rw [zpow_add₀ two_ne_zero, zpow_natCast, mul_comm]
  have positive : (0 : Rat) < 2 ^ (970 : Int) := zpow_pos two_pos _
  have low : (2 : Rat) ^ (1023 : Int) = 2 ^ 53 * 2 ^ (970 : Int) := doubled 53
  have high : (2 : Rat) ^ (1024 : Int) = 2 ^ 54 * 2 ^ (970 : Int) := doubled 54
  rw [low, high, overflowLimit]
  constructor
  · exact mul_le_mul_of_nonneg_right (by norm_num) positive.le
  · exact mul_le_mul_of_nonneg_right (by norm_num) positive.le

theorem signed_value (s : Sign) (m : Nat) :
    ((s.apply m : Int) : Rat) = (s.apply 1 : Int) * m := by
  cases s <;> simp [Sign.apply]

theorem signed_abs (s : Sign) (x : Rat) : |((s.apply 1 : Int) : Rat) * x| = |x| := by
  cases s <;> simp [Sign.apply]

theorem signed_finite (s : Sign) (h : 0 < m) (e : Int) :
    finiteValue (.finite s m e h) = (s.apply 1 : Int) * (m * 2 ^ e) := by
  rw [finiteValue, signed_value, mul_assoc]

theorem rounded_value (s : Sign) {accuracy : Accuracy} (fine : e ≤ roundedExponent m e) :
    finiteValue (roundWithAccuracy Format.binary64 s m e accuracy) =
      s.apply (roundedOnce m e accuracy) * 2 ^ roundedExponent m e := by
  rcases rounded_cases s accuracy fine rfl with
    ⟨zero, result⟩ | ⟨-, h, result⟩ | ⟨carried, h, result⟩
  · rw [result, zero, signed_value]
    simp [finiteValue]
  · rw [result]
    rfl
  · rw [result, carried, signed_value, finiteValue, signed_value, zpow_add₀ two_ne_zero]
    push_cast
    ring

theorem between_steps (fine : e ≤ roundedExponent m e) :
    ((m / 2 ^ (roundedExponent m e - e).toNat : Nat) : Rat) * 2 ^ roundedExponent m e ≤
        m * 2 ^ e ∧
      ((m : Rat) + 1) * 2 ^ e ≤
        ((m / 2 ^ (roundedExponent m e - e).toNat : Nat) + 1) * 2 ^ roundedExponent m e := by
  have step : (2 : Rat) ^ roundedExponent m e =
      ((2 ^ (roundedExponent m e - e).toNat : Nat) : Rat) * 2 ^ e := by
    have exponent : roundedExponent m e = (roundedExponent m e - e).toNat + e := by omega
    conv_lhs => rw [exponent, zpow_add₀ two_ne_zero, zpow_natCast]
    rw [Nat.cast_pow, Nat.cast_ofNat]
  have positive : (0 : Rat) < 2 ^ e := zpow_pos two_pos e
  generalize (roundedExponent m e - e).toNat = k at *
  have low : m / 2 ^ k * 2 ^ k ≤ m := Nat.div_mul_le_self _ _
  have high : m + 1 ≤ (m / 2 ^ k + 1) * 2 ^ k := by
    rw [Nat.mul_comm]
    exact Nat.lt_mul_div_succ m (Nat.two_pow_pos _)
  rw [step, ← mul_assoc, ← mul_assoc]
  constructor
  · exact mul_le_mul_of_nonneg_right (mod_cast low) positive.le
  · exact mul_le_mul_of_nonneg_right (mod_cast high) positive.le

theorem rounded_within {accuracy : Accuracy} (fine : e ≤ roundedExponent m e) {x : Rat}
    (low : m * 2 ^ e ≤ x) (high : x ≤ (m + 1) * 2 ^ e) :
    |roundedOnce m e accuracy * 2 ^ roundedExponent m e - x| ≤ 2 ^ roundedExponent m e := by
  obtain ⟨below, above⟩ := between_steps fine
  have bounds := rounded_once_bounds m e accuracy
  have positive : (0 : Rat) < 2 ^ roundedExponent m e := zpow_pos two_pos _
  have least : ((m / 2 ^ (roundedExponent m e - e).toNat : Nat) : Rat) * 2 ^ roundedExponent m e ≤
      roundedOnce m e accuracy * 2 ^ roundedExponent m e :=
    mul_le_mul_of_nonneg_right (mod_cast bounds.1) positive.le
  have most : (roundedOnce m e accuracy : Rat) * 2 ^ roundedExponent m e ≤
      ((m / 2 ^ (roundedExponent m e - e).toNat : Nat) + 1) * 2 ^ roundedExponent m e :=
    mul_le_mul_of_nonneg_right (mod_cast bounds.2) positive.le
  rw [abs_le]
  constructor <;> linarith

/-- A step is a part of the number, but for the step of the least exponent. -/
theorem step_part (h : 0 < m) (normal : -1074 < roundedExponent m e) :
    (2 : Rat) ^ roundedExponent m e ≤ m * 2 ^ e / 2 ^ 52 := by
  have exponent : roundedExponent m e + (52 : Nat) = m.log2 + e := by
    rw [rounded_exponent_eq] at normal ⊢
    omega
  have leading : (2 : Rat) ^ m.log2 ≤ m := by
    exact_mod_cast Nat.log2_self_le (Nat.ne_of_gt h)
  rw [le_div_iff₀ (by norm_num), ← zpow_natCast (2 : Rat) 52, ← zpow_add₀ two_ne_zero, exponent,
    zpow_add₀ two_ne_zero, zpow_natCast]
  exact mul_le_mul_of_nonneg_right leading (zpow_pos two_pos e).le

theorem limit_of_rounded {h : 0 < m} (rounded : Rounded (.finite s m e h)) :
    e ≤ 971 ↔ (m : Rat) * 2 ^ e < overflowLimit := by
  obtain ⟨least, length⟩ := rounded
  constructor
  · intro most
    have short : m + 1 ≤ 2 ^ 53 := Nat.lt_of_lt_of_le Nat.lt_log2_self
      (Nat.pow_le_pow_right (by decide) (by omega))
    have mantissa : (m : Rat) ≤ 2 ^ 53 - 1 := by
      rw [le_sub_iff_add_le]
      exact_mod_cast short
    have power : (2 : Rat) ^ e ≤ 2 * 2 ^ (970 : Int) := by
      rw [← zpow_one_add₀ two_ne_zero]
      exact zpow_le_zpow_right₀ one_le_two most
    have positive : (0 : Rat) < 2 ^ (970 : Int) := zpow_pos two_pos _
    calc (m : Rat) * 2 ^ e ≤ (2 ^ 53 - 1) * (2 * 2 ^ (970 : Int)) :=
          mul_le_mul mantissa power (zpow_pos two_pos e).le (by norm_num)
      _ = (2 ^ 54 - 2) * 2 ^ (970 : Int) := by ring
      _ < overflowLimit := mul_lt_mul_of_pos_right (by norm_num) positive
  · intro below
    by_contra huge
    have leading : (2 : Rat) ^ (52 : Int) ≤ m := by
      have full : m.log2 = 52 := by omega
      exact_mod_cast full ▸ Nat.log2_self_le (Nat.ne_of_gt h)
    have large : (2 : Rat) ^ (1024 : Int) ≤ m * 2 ^ e := by
      calc (2 : Rat) ^ (1024 : Int) = 2 ^ (52 : Int) * 2 ^ (972 : Int) :=
            zpow_add₀ two_ne_zero 52 972
        _ ≤ m * 2 ^ e := mul_le_mul leading (zpow_le_zpow_right₀ one_le_two (by omega))
            (zpow_pos two_pos _).le (Nat.cast_nonneg m)
    exact (below.trans_le overflow_limit_within.2).not_ge large

theorem packed_finite_iff {h : 0 < m} :
    (Float.Model.pack (.finite s m e h)).unpack.isFinite = true ↔ e ≤ 971 := by
  constructor
  · intro finite
    by_contra huge
    rw [packed_overflow s h (by omega)] at finite
    exact Bool.false_ne_true finite
  · exact fun most => packed_finite (u := .finite s m e h) most

/-- The last place but one of the mantissa is odd, so a half is rounded up there. -/
theorem half_carried_iff {em : ExtendedMantissa} (long : em.mantissa < 2 ^ 54) :
    em.shiftRightOne.roundedMantissa = 2 ^ 53 ↔ 2 ^ 54 - 1 ≤ em.mantissa := by
  obtain ⟨mantissa, half, below⟩ := em
  have odd : mantissa % 2 = 0 ∨ mantissa % 2 = 1 := Nat.mod_two_eq_zero_or_one mantissa
  rcases odd with even | odd <;> cases half <;> cases below <;>
    simp only [ExtendedMantissa.shiftRightOne, ExtendedMantissa.roundedMantissa,
      ExtendedMantissa.accuracy, Accuracy.roundToNearestEven] at long ⊢ <;>
    simp_all <;> omega

theorem carried_iff (fine : e ≤ roundedExponent m e) :
    roundedOnce m e .exact = 2 ^ 53 ↔
      (2 ^ 54 - 1) * 2 ^ (roundedExponent m e - 1) ≤ (m : Rat) * 2 ^ e := by
  have below := shifted_below m e
  have positive : (0 : Rat) < 2 ^ e := zpow_pos two_pos e
  cases places : (roundedExponent m e - e).toNat with
  | zero =>
    have same : roundedExponent m e = e := by omega
    rw [places, Nat.pow_zero, Nat.div_one] at below
    have once : roundedOnce m e .exact = m := by
      rw [roundedOnce, places]
      rfl
    have short : (m : Rat) ≤ 2 ^ 53 - 1 := by
      rw [le_sub_iff_add_le]
      exact_mod_cast below
    refine iff_of_false (by omega) (not_le_of_gt ?_)
    rw [same, zpow_sub_one₀ two_ne_zero]
    nlinarith
  | succ k =>
    have exponent : roundedExponent m e - 1 = k + e := by omega
    rw [places, Nat.pow_succ, ← Nat.div_div_eq_div_mul] at below
    have mantissa : (ExtendedMantissa.ofMantissaAndAccuracy m .exact >>> k).mantissa =
        m / 2 ^ k := shifted_mantissa _ k
    rw [roundedOnce, places, shift_succ, half_carried_iff (by omega), mantissa,
      Nat.le_div_iff_mul_le (Nat.two_pow_pos k), exponent, zpow_add₀ two_ne_zero, zpow_natCast,
      ← mul_assoc, mul_le_mul_iff_left₀ positive, ← Nat.cast_le (α := Rat)]
    norm_num

theorem rounded_finite_iff (s : Sign) (fine : e ≤ roundedExponent m e) :
    (Float.Model.pack (roundWithAccuracy Format.binary64 s m e .exact)).unpack.isFinite = true ↔
      (m : Rat) * 2 ^ e < overflowLimit := by
  obtain ⟨low, high⟩ := between_steps fine
  have positive : (0 : Rat) < 2 ^ e := zpow_pos two_pos e
  have short := shifted_below m e
  have bounds := rounded_once_bounds m e .exact
  have carried := carried_iff fine
  have cases := rounded_cases s .exact fine rfl
  have full := fun normal => full_quotient normal fine
  generalize m / 2 ^ (roundedExponent m e - e).toNat = q at *
  generalize roundedOnce m e .exact = r at *
  generalize roundedExponent m e = g at *
  have finite_iff :
      (Float.Model.pack (roundWithAccuracy Format.binary64 s m e .exact)).unpack.isFinite = true ↔
        g < 971 ∨ g = 971 ∧ r < 2 ^ 53 := by
    rcases cases with ⟨zero, result⟩ | ⟨less, h, result⟩ | ⟨equal, h, result⟩
    · have least : g ≤ -1074 := by
        by_contra normal
        have := full (by omega)
        omega
      rw [result]
      exact iff_of_true (packed_finite (u := .zero s) trivial) (Or.inl (by omega))
    · rw [result, packed_finite_iff]
      omega
    · rw [result, packed_finite_iff]
      omega
  rw [finite_iff]
  rcases lt_trichotomy g 971 with less | rfl | greater
  · refine iff_of_true (Or.inl less) ?_
    have mantissa : (q : Rat) + 1 ≤ 2 ^ 53 := by exact_mod_cast short
    calc (m : Rat) * 2 ^ e < (m + 1) * 2 ^ e := by linarith
      _ ≤ (q + 1) * 2 ^ g := high
      _ ≤ 2 ^ 53 * 2 ^ (970 : Int) := mul_le_mul mantissa
          (zpow_le_zpow_right₀ one_le_two (by omega)) (zpow_pos two_pos _).le (by norm_num)
      _ = 2 ^ (1023 : Int) := by rw [← zpow_natCast, ← zpow_add₀ two_ne_zero]; norm_num
      _ ≤ overflowLimit := overflow_limit_within.1
  · have limit : overflowLimit = (2 ^ 54 - 1) * 2 ^ ((971 : Int) - 1) := rfl
    rw [limit, ← @not_le Rat, ← carried]
    omega
  · refine iff_of_false (by omega) (not_lt_of_ge ?_)
    have mantissa : (2 : Rat) ^ 52 ≤ q := by exact_mod_cast full (by omega)
    calc overflowLimit ≤ 2 ^ (1024 : Int) := overflow_limit_within.2
      _ = 2 ^ 52 * 2 ^ (972 : Int) := by rw [← zpow_natCast, ← zpow_add₀ two_ne_zero]; norm_num
      _ ≤ q * 2 ^ g := mul_le_mul mantissa (zpow_le_zpow_right₀ one_le_two (by omega))
          (zpow_pos two_pos _).le (Nat.cast_nonneg q)
      _ ≤ m * 2 ^ e := low

/-- What rounding a number gives that has no bits below the least exponent. -/
structure RoundsTo (u : UnpackedFloat) (x : Rat) : Prop where
  ordinary : Ordinary u
  near : |finiteValue u - x| ≤ |x| / 2 ^ 52
  finite_iff : (Float.Model.pack u).unpack.isFinite = true ↔ |x| < overflowLimit

theorem zero_rounds (s : Sign) : RoundsTo (.zero s) 0 where
  ordinary := trivial
  near := by simp [finiteValue]
  finite_iff := by
    rw [abs_zero]
    exact iff_of_true (packed_finite (u := .zero s) trivial)
      ((zpow_pos two_pos _).trans_le overflow_limit_within.1)

theorem double_rounds {h : 0 < m} (rounded : Rounded (.finite s m e h)) :
    RoundsTo (.finite s m e h) (finiteValue (.finite s m e h)) where
  ordinary := rounded
  near := by
    rw [sub_self, abs_zero]
    positivity
  finite_iff := by
    rw [packed_finite_iff, limit_of_rounded rounded, ← finite_value_abs]
    rfl

theorem rounded_ordinary (s : Sign) (accuracy : Accuracy) (fine : e ≤ roundedExponent m e) :
    Ordinary (roundWithAccuracy Format.binary64 s m e accuracy) := by
  have form := rounded_form s accuracy fine
  rcases rounded_cases s accuracy fine rfl with ⟨-, result⟩ | ⟨-, h, result⟩ | ⟨-, h, result⟩
  · rw [result]
    trivial
  · rw [result] at form ⊢
    exact form
  · rw [result] at form ⊢
    exact form

theorem scaled_exponent (h : 0 < m) (e : Int) (k : Nat) :
    roundedExponent (m <<< k) (e - k) = roundedExponent m e := by
  rw [rounded_exponent_eq, rounded_exponent_eq, log2_shifted _ (Nat.ne_of_gt h)]
  omega

theorem round_rounds (s : Sign) (h : 0 < m) (least : -1074 ≤ e) :
    RoundsTo (UnpackedFloat.round Format.binary64 s m e) (s.apply m * 2 ^ e) := by
  have size : |((s.apply m : Int) : Rat) * 2 ^ e| = m * 2 ^ e := by
    rw [signed_value, mul_assoc, signed_abs, abs_of_pos (value_positive h e)]
  have scaled : UnpackedFloat.round Format.binary64 s m e = roundWithAccuracy Format.binary64 s
      (m <<< (e - roundedExponent m e).toNat) (e - (e - roundedExponent m e).toNat) .exact := rfl
  have same := scaled_exponent h e (e - roundedExponent m e).toNat
  rw [scaled]
  by_cases fits : roundedExponent m e ≤ e
  · have exponent : e - (e - roundedExponent m e).toNat = roundedExponent m e := by omega
    have fine : roundedExponent m e ≤
        roundedExponent (m <<< (e - roundedExponent m e).toNat) (roundedExponent m e) := by
      rw [exponent] at same
      omega
    rw [exponent] at same ⊢
    have value := shifted_value (m := m) fits
    refine ⟨rounded_ordinary s .exact fine, ?_, ?_⟩
    · have once : roundedOnce (m <<< (e - roundedExponent m e).toNat) (roundedExponent m e) .exact =
          m <<< (e - roundedExponent m e).toNat := by
        rw [roundedOnce, same, Int.sub_self]
        rfl
      rw [rounded_value s fine, once, same, signed_value, mul_assoc, value, ← mul_assoc,
        ← signed_value, sub_self, abs_zero]
      positivity
    · rw [rounded_finite_iff s fine, value, size]
  · have places : (e - roundedExponent m e).toNat = 0 := by omega
    rw [places, Nat.shiftLeft_zero, Int.natCast_zero, Int.sub_zero]
    have fine : e ≤ roundedExponent m e := by omega
    refine ⟨rounded_ordinary s .exact fine, ?_, ?_⟩
    · have high : (m : Rat) * 2 ^ e ≤ (m + 1) * 2 ^ e :=
        mul_le_mul_of_nonneg_right (by linarith) (zpow_pos two_pos e).le
      rw [size, rounded_value s fine, signed_value, signed_value s m, mul_assoc, mul_assoc,
        ← mul_sub, signed_abs]
      exact (rounded_within fine le_rfl high).trans (step_part h (by omega))
    · rw [rounded_finite_iff s fine, size]

theorem normalized_rounds (z : Int) (least : -1074 ≤ e) :
    RoundsTo (UnpackedFloat.normalize Format.binary64 z e .positive) (z * 2 ^ e) := by
  rcases normalized_cases z e with ⟨rfl, result⟩ | ⟨negative, result⟩ | ⟨positive, result⟩
  · rw [result, Int.cast_zero, zero_mul]
    exact zero_rounds .positive
  · have size : Sign.negative.apply (z.natAbs : Int) = z := by
      simp only [Sign.apply]
      omega
    rw [result]
    conv => arg 2; rw [← size]
    exact round_rounds .negative (by omega) least
  · have size : Sign.positive.apply (z.natAbs : Int) = z := by
      simp only [Sign.apply]
      omega
    rw [result]
    conv => arg 2; rw [← size]
    exact round_rounds .positive (by omega) least

theorem signed_shifted (s : Sign) {g : Int} (le : g ≤ e) :
    ((s.apply (m <<< (e - g).toNat : Nat) : Int) : Rat) * 2 ^ g = s.apply m * 2 ^ e := by
  rw [signed_value, mul_assoc, shifted_value le, ← mul_assoc, ← signed_value]

theorem sum_rounds (left : Ordinary u) (right : Ordinary v) :
    RoundsTo (UnpackedFloat.add Format.binary64 u v) (finiteValue u + finiteValue v) := by
  cases u with
  | notANumber => exact absurd left id
  | infinity s => exact absurd left id
  | zero s =>
    have nothing : finiteValue (.zero s) = 0 := rfl
    rw [nothing, zero_add]
    cases v with
    | notANumber => exact absurd right id
    | infinity t => exact absurd right id
    | zero t => cases s <;> cases t <;> exact zero_rounds _
    | finite t n f h' => exact double_rounds right
  | finite s m e h =>
    cases v with
    | notANumber => exact absurd right id
    | infinity t => exact absurd right id
    | zero t =>
      have nothing : finiteValue (.zero t) = 0 := rfl
      rw [nothing, add_zero]
      exact double_rounds left
    | finite t n f h' =>
      obtain ⟨least, -⟩ : Rounded (.finite s m e h) := left
      obtain ⟨least', -⟩ : Rounded (.finite t n f h') := right
      have rounds := normalized_rounds
        (s.apply (m <<< (e - min e f).toNat : Nat) + t.apply (n <<< (f - min e f).toNat : Nat))
        (e := min e f) (by omega)
      rw [Int.cast_add, add_mul, signed_shifted s (Int.min_le_left e f),
        signed_shifted t (Int.min_le_right e f)] at rounds
      exact rounds

theorem difference_is_sum (u v : UnpackedFloat) :
    UnpackedFloat.sub Format.binary64 u v = UnpackedFloat.add Format.binary64 u v.neg := by
  cases u with
  | finite s m e h =>
    cases v with
    | finite t n f h' =>
      have turned (a b : Int) : a - t.apply b = a + (-t).apply b := by
        cases t with
        | positive => rfl
        | negative => exact Int.sub_neg a b
      simp only [UnpackedFloat.sub, UnpackedFloat.add, UnpackedFloat.neg, turned]
    | _ => rfl
  | _ => cases v <;> rfl

theorem finite_value_of_neg (u : UnpackedFloat) : finiteValue u.neg = -finiteValue u := by
  cases u with
  | finite s m e h => exact finite_value_neg s h e
  | _ => exact neg_zero.symm

theorem difference_rounds (left : Ordinary u) (right : Ordinary v) :
    RoundsTo (UnpackedFloat.sub Format.binary64 u v) (finiteValue u - finiteValue v) := by
  have turned : Ordinary v.neg := by cases v <;> exact right
  rw [difference_is_sum, sub_eq_add_neg, ← finite_value_of_neg]
  exact sum_rounds left turned

theorem product_ordinary (left : Ordinary u) (right : Ordinary v) :
    Ordinary (UnpackedFloat.mul Format.binary64 u v) ∧
      ((Float.Model.pack (UnpackedFloat.mul Format.binary64 u v)).unpack.isFinite = true ↔
        |finiteValue u * finiteValue v| < overflowLimit) := by
  have nothing (s : Sign) : finiteValue (.zero s) = 0 := rfl
  cases u with
  | notANumber => exact absurd left id
  | infinity s => exact absurd left id
  | zero s =>
    rw [nothing, zero_mul]
    cases v with
    | notANumber => exact absurd right id
    | infinity t => exact absurd right id
    | _ => exact ⟨trivial, (zero_rounds _).finite_iff⟩
  | finite s m e h =>
    cases v with
    | notANumber => exact absurd right id
    | infinity t => exact absurd right id
    | zero t =>
      rw [nothing, mul_zero]
      exact ⟨trivial, (zero_rounds _).finite_iff⟩
    | finite t n f h' =>
      have left : Rounded (.finite s m e h) := left
      have right : Rounded (.finite t n f h') := right
      have fine := product_fine left right
      have size : |finiteValue (.finite s m e h) * finiteValue (.finite t n f h')| =
          (m * n : Nat) * 2 ^ (e + f) := by
        rw [signed_finite, signed_finite, abs_mul, signed_abs, signed_abs,
          abs_of_pos (value_positive h e), abs_of_pos (value_positive h' f), zpow_add₀ two_ne_zero]
        push_cast
        ring
      rw [size]
      exact ⟨rounded_ordinary _ _ fine, rounded_finite_iff _ fine⟩

/-- What is kept of a quotient, between whose steps it is. -/
theorem quotient_between {m n : Nat} (h' : 0 < n) (e f : Int) :
    let g := quotientExponent m e n f
    let q := m <<< (e - f - g).toNat / n
    (q : Rat) * 2 ^ g ≤ m * 2 ^ e / (n * 2 ^ f) ∧
      (m : Rat) * 2 ^ e / (n * 2 ^ f) ≤ (q + 1) * 2 ^ g := by
  intro g q
  have le : g ≤ e - f := Int.min_le_left _ _
  have positive : (0 : Rat) < 2 ^ g := zpow_pos two_pos g
  have divisor : (0 : Rat) < n := Nat.cast_pos.mpr h'
  have scaled : (m : Rat) * 2 ^ e / (n * 2 ^ f) = (m <<< (e - f - g).toNat : Nat) / n * 2 ^ g := by
    rw [mul_div_mul_comm, ← zpow_sub₀ two_ne_zero, div_mul_eq_mul_div, ← shifted_value le,
      div_mul_eq_mul_div]
  have low : q * n ≤ m <<< (e - f - g).toNat := Nat.div_mul_le_self _ n
  have high : m <<< (e - f - g).toNat ≤ (q + 1) * n := by
    rw [Nat.mul_comm]
    exact (Nat.lt_mul_div_succ _ h').le
  rw [scaled]
  refine ⟨mul_le_mul_of_nonneg_right ?_ positive.le, mul_le_mul_of_nonneg_right ?_ positive.le⟩
  · rw [le_div_iff₀ divisor]
    exact_mod_cast low
  · rw [div_le_iff₀ divisor]
    exact_mod_cast high

theorem signed_quotient (s t : Sign) (x y : Rat) :
    ((s.apply 1 : Int) * x) / ((t.apply 1 : Int) * y) = ((s / t).apply 1 : Int) * (x / y) := by
  have turned : (s / t).apply 1 = s.apply 1 * t.apply 1 := by cases s <;> cases t <;> rfl
  rw [turned]
  cases s <;> cases t <;> simp [Sign.apply, neg_div, div_neg]

theorem quotient_near {h : 0 < m} {h' : 0 < n} (left : Rounded (.finite s m e h))
    (right : Rounded (.finite t n f h')) :
    Ordinary (UnpackedFloat.div Format.binary64 (.finite s m e h) (.finite t n f h')) ∧
      |finiteValue (UnpackedFloat.div Format.binary64 (.finite s m e h) (.finite t n f h')) -
          finiteValue (.finite s m e h) / finiteValue (.finite t n f h')| ≤
        |finiteValue (.finite s m e h) / finiteValue (.finite t n f h')| / 2 ^ 52 +
          2 ^ (-1074 : Int) := by
  have fine := quotient_fine left right
  obtain ⟨low, high⟩ := quotient_between (m := m) h' e f
  simp only [UnpackedFloat.div, div_core_eq] at fine low high ⊢
  generalize quotientExponent m e n f = g at *
  generalize m <<< (e - f - g).toNat % n = rest
  generalize m <<< (e - f - g).toNat / n = q at *
  have exact : 0 < (m : Rat) * 2 ^ e / (n * 2 ^ f) :=
    div_pos (value_positive h e) (value_positive h' f)
  have step : (2 : Rat) ^ roundedExponent q g ≤
      m * 2 ^ e / (n * 2 ^ f) / 2 ^ 52 + 2 ^ (-1074 : Int) := by
    have least : (0 : Rat) < 2 ^ (-1074 : Int) := zpow_pos two_pos _
    by_cases normal : -1074 < roundedExponent q g
    · have some : 0 < q :=
        Nat.pos_of_div_pos ((Nat.two_pow_pos 52).trans_le (full_quotient normal fine))
      have part := step_part some normal
      have less := div_le_div_of_nonneg_right low (by norm_num : (0 : Rat) ≤ 2 ^ 52)
      linarith
    · have same : roundedExponent q g = -1074 := by
        rw [rounded_exponent_eq] at normal ⊢
        omega
      rw [same]
      have part : 0 < (m : Rat) * 2 ^ e / (n * 2 ^ f) / 2 ^ 52 := div_pos exact (by norm_num)
      linarith
  refine ⟨rounded_ordinary _ _ fine, ?_⟩
  rw [rounded_value _ fine, signed_value, mul_assoc, signed_finite, signed_finite, signed_quotient,
    ← mul_sub, signed_abs, signed_abs, abs_of_pos exact]
  exact (rounded_within fine low high).trans step

variable {x y : Float} {q : Rat}

theorem double_ordinary (finite : x.isFinite = true) : Ordinary x.toModel.unpack := by
  have finite : x.toModel.unpack.isFinite = true := finite
  have rounded := double_rounded x
  cases kind : x.toModel.unpack with
  | notANumber => rw [kind] at finite; contradiction
  | infinity s => rw [kind] at finite; contradiction
  | zero s => trivial
  | finite s m e h => rwa [kind] at rounded

theorem finite_value_of (finite : x.isFinite = true) :
    valueOf x = finiteValue x.toModel.unpack := by
  have finite : x.toModel.unpack.isFinite = true := finite
  rw [valueOf, exactValue]
  cases kind : x.toModel.unpack with
  | infinity s => rw [kind] at finite; contradiction
  | _ => rfl

theorem packed_ordinary (ordinary : Ordinary u)
    (finite : (Float.Model.pack u).unpack.isFinite = true) : (Float.Model.pack u).unpack = u := by
  have rounded : Rounded u := by cases u <;> trivial
  rcases packed_cases rounded with same | ⟨s, m, e, h, -, -, eq⟩
  · exact same
  · rw [eq] at finite
    contradiction

structure DoubleNear (x : Float) (q : Rat) : Prop where
  finite_iff : x.isFinite = true ↔ |q| < overflowLimit
  near : x.isFinite = true → |valueOf x - q| ≤ |q| / 2 ^ 52

theorem rounds_near (rounds : RoundsTo u q) (packed : x.toModel = Float.Model.pack u) :
    DoubleNear x q where
  finite_iff := by
    rw [← rounds.finite_iff, ← packed]
    rfl
  near := by
    intro finite
    rw [finite_value_of finite, packed, packed_ordinary rounds.ordinary (packed ▸ finite)]
    exact rounds.near

theorem double_sum_near (finite : x.isFinite = true) (finite' : y.isFinite = true) :
    DoubleNear (x + y) (valueOf x + valueOf y) := by
  rw [finite_value_of finite, finite_value_of finite']
  exact rounds_near (sum_rounds (double_ordinary finite) (double_ordinary finite')) rfl

theorem double_difference_near (finite : x.isFinite = true) (finite' : y.isFinite = true) :
    DoubleNear (x - y) (valueOf x - valueOf y) := by
  rw [finite_value_of finite, finite_value_of finite']
  exact rounds_near (difference_rounds (double_ordinary finite) (double_ordinary finite')) rfl

theorem double_product_finite_iff (finite : x.isFinite = true) (finite' : y.isFinite = true) :
    (x * y).isFinite = true ↔ |valueOf x * valueOf y| < overflowLimit := by
  rw [finite_value_of finite, finite_value_of finite']
  exact (product_ordinary (double_ordinary finite) (double_ordinary finite')).2

theorem double_quotient_near (finite : x.isFinite = true) (finite' : y.isFinite = true)
    (divisor : valueOf y ≠ 0) (result : (x / y).isFinite = true) :
    |valueOf (x / y) - valueOf x / valueOf y| ≤
      |valueOf x / valueOf y| / 2 ^ 52 + 2 ^ (-1074 : Int) := by
  have left := double_ordinary finite
  have right := double_ordinary finite'
  have packed : (x / y).toModel =
      Float.Model.pack (UnpackedFloat.div Format.binary64 x.toModel.unpack y.toModel.unpack) := rfl
  have result' : (x / y).toModel.unpack.isFinite = true := result
  have least : (0 : Rat) ≤ 2 ^ (-1074 : Int) := (zpow_pos two_pos _).le
  rw [finite_value_of finite'] at divisor
  rw [finite_value_of result, finite_value_of finite, finite_value_of finite']
  rw [packed] at result' ⊢
  generalize x.toModel.unpack = u at *
  generalize y.toModel.unpack = v at *
  cases v with
  | notANumber => exact absurd right id
  | infinity t => exact absurd right id
  | zero t => exact absurd rfl divisor
  | finite t n f h' =>
    cases u with
    | notANumber => exact absurd left id
    | infinity s => exact absurd left id
    | zero s =>
      have nothing (s : Sign) : finiteValue (.zero s) = 0 := rfl
      have quotient : UnpackedFloat.div Format.binary64 (.zero s) (.finite t n f h') =
          .zero (s / t) := rfl
      rw [quotient] at result' ⊢
      rw [packed_ordinary (u := .zero (s / t)) trivial result', nothing, nothing, zero_div]
      simpa only [sub_zero, abs_zero, zero_div, zero_add] using least
    | finite s m e h =>
      have left : Rounded (.finite s m e h) := left
      have right : Rounded (.finite t n f h') := right
      obtain ⟨ordinary, near⟩ := quotient_near left right
      rw [packed_ordinary ordinary result']
      exact near

theorem packed_not_finite (infinite : u.isFinite = false) :
    (Float.Model.pack u).unpack.isFinite = false := by
  cases u with
  | notANumber => rfl
  | infinity s => cases s <;> rfl
  | zero s => contradiction
  | finite s m e h => contradiction

theorem sum_not_finite (infinite : u.isFinite = false) :
    (UnpackedFloat.add Format.binary64 u v).isFinite = false := by
  cases u with
  | notANumber => rfl
  | infinity s =>
    cases v with
    | infinity t => cases s <;> cases t <;> rfl
    | _ => rfl
  | zero s => contradiction
  | finite s m e h => contradiction

theorem finite_of_sum (finite : (x + y).isFinite = true) :
    x.isFinite = true ∧ y.isFinite = true := by
  have left {x y : Float} (finite : (x + y).isFinite = true) : x.isFinite = true := by
    by_contra infinite
    have sum : (x + y).isFinite = false :=
      packed_not_finite (sum_not_finite (Bool.eq_false_of_not_eq_true infinite))
    rw [sum] at finite
    contradiction
  exact ⟨left finite, left (double_add_comm x y ▸ finite)⟩

theorem value_zero : valueOf (Scalar.zero : Float) = 0 := by
  rw [valueOf, zero_unpacked]
  rfl

theorem value_one : valueOf (Scalar.one : Float) = 1 := by
  rw [valueOf, one_unpacked]
  norm_num [exactValue, inPlace, finiteValue, Sign.apply]

theorem value_nonneg (leans : Leans .positive x.toModel.unpack) : 0 ≤ valueOf x := by
  rw [← value_zero, ← double_le_iff_value zero_number leans.number, zero_le_iff_leans]
  exact leans

theorem infinite_of_leans (leans : Leans .positive x.toModel.unpack)
    (infinite : x.isFinite = false) : x.toModel.unpack = .infinity .positive := by
  have infinite : x.toModel.unpack.isFinite = false := infinite
  cases kind : x.toModel.unpack with
  | infinity s =>
    rw [kind] at leans
    obtain rfl : s = .positive := leans
    rfl
  | notANumber => simp [kind, Leans] at leans
  | _ => simp [kind, UnpackedFloat.isFinite] at infinite

theorem divided_by_infinity (finite : x.isFinite = true)
    (infinite : y.toModel.unpack = .infinity s) : ∃ t, (x / y).toModel.unpack = .zero t := by
  have finite : x.toModel.unpack.isFinite = true := finite
  have quotient : ∃ t, UnpackedFloat.div Format.binary64 x.toModel.unpack y.toModel.unpack =
      .zero t := by
    rw [infinite]
    cases kind : x.toModel.unpack with
    | notANumber => rw [kind] at finite; contradiction
    | infinity s => rw [kind] at finite; contradiction
    | zero s => exact ⟨_, rfl⟩
    | finite s m e h => exact ⟨_, rfl⟩
  obtain ⟨t, quotient⟩ := quotient
  have packed : (x / y).toModel.unpack = (Float.Model.pack (.zero t)).unpack :=
    congrArg (fun u => (Float.Model.pack u).unpack) quotient
  exact ⟨t, packed.trans (by cases t <;> rfl)⟩

theorem infinity_divided (infinite : x.toModel.unpack = .infinity s)
    (finite : y.isFinite = true) : ∃ t, (x / y).toModel.unpack = .infinity t := by
  have finite : y.toModel.unpack.isFinite = true := finite
  have quotient : ∃ t, UnpackedFloat.div Format.binary64 x.toModel.unpack y.toModel.unpack =
      .infinity t := by
    rw [infinite]
    cases kind : y.toModel.unpack with
    | notANumber => rw [kind] at finite; contradiction
    | infinity s => rw [kind] at finite; contradiction
    | zero s => exact ⟨_, rfl⟩
    | finite s m e h => exact ⟨_, rfl⟩
  obtain ⟨t, quotient⟩ := quotient
  have packed : (x / y).toModel.unpack = (Float.Model.pack (.infinity t)).unpack :=
    congrArg (fun u => (Float.Model.pack u).unpack) quotient
  exact ⟨t, packed.trans (by cases t <;> rfl)⟩

theorem infinities_divided (infinite : x.toModel.unpack = .infinity s)
    (infinite' : y.toModel.unpack = .infinity t) : (x / y).isNaN = true := by
  have quotient : UnpackedFloat.div Format.binary64 x.toModel.unpack y.toModel.unpack =
      .notANumber := by
    rw [infinite, infinite']
    rfl
  have packed : (x / y).toModel.unpack = (Float.Model.pack .notANumber).unpack :=
    congrArg (fun u => (Float.Model.pack u).unpack) quotient
  change (x / y).toModel.unpack.isNaN = true
  rw [packed]
  rfl

theorem beq_zero_iff : (x == Scalar.zero) = true ↔ ∃ s, x.toModel.unpack = .zero s := by
  rw [double_beq_iff, compareDoubles, zero_unpacked]
  cases x.toModel.unpack with
  | zero s => exact iff_of_true rfl ⟨s, rfl⟩
  | finite s m e h => cases s <;> simp [UnpackedFloat.compare]
  | infinity s => cases s <;> simp [UnpackedFloat.compare]
  | notANumber => simp [UnpackedFloat.compare]

end Authorship
