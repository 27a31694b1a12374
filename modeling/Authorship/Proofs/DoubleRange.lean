import Authorship.Scalar
import Mathlib

/-
How far rounding goes. What is at most the greatest double before it is rounded does not overflow,
and what is at least one stays at least one. Dividing by a count of things therefore never leaves
the range, and a mean is finite whenever its sum is.
-/
namespace Authorship

open Float.Model (UnpackedFloat Format totalExponent)
open Float.Model.UnpackedFloat

/-- What a mantissa with its residual bits stands for is at most this number. -/
def AtMost (em : ExtendedMantissa) (limit : Nat) : Prop :=
  em.mantissa < limit ∨ em = ⟨limit, false, false⟩

theorem rounded_bounds (em : ExtendedMantissa) :
    em.mantissa ≤ em.roundedMantissa ∧ em.roundedMantissa ≤ em.mantissa + 1 := by
  obtain ⟨m, half, below⟩ := em
  cases half <;> cases below <;>
    simp only [ExtendedMantissa.roundedMantissa, ExtendedMantissa.accuracy,
      Accuracy.roundToNearestEven] <;>
    omega

theorem rounded_at_most {em : ExtendedMantissa} {limit : Nat} (atMost : AtMost em limit) :
    em.roundedMantissa ≤ limit := by
  rcases atMost with less | rfl
  · have := rounded_bounds em
    omega
  · exact Nat.le_refl limit

theorem shift_succ (em : ExtendedMantissa) (k : Nat) :
    em >>> (k + 1) = (em >>> k).shiftRightOne := rfl

theorem shifted_mantissa (em : ExtendedMantissa) (k : Nat) :
    (em >>> k).mantissa = em.mantissa / 2 ^ k := by
  induction k with
  | zero => exact (Nat.div_one _).symm
  | succ k ih =>
    rw [shift_succ, Nat.pow_succ, ← Nat.div_div_eq_div_mul, ← ih]
    rfl

theorem shifted_at_most {em : ExtendedMantissa} {k limit : Nat}
    (atMost : AtMost em (2 ^ k * limit)) : AtMost (em >>> k) limit := by
  induction k generalizing limit with
  | zero =>
    rw [Nat.pow_zero, Nat.one_mul] at atMost
    exact atMost
  | succ k ih =>
    rw [shift_succ]
    have half : AtMost (em >>> k) (2 * limit) := ih (by rwa [Nat.pow_succ, Nat.mul_assoc] at atMost)
    rcases half with less | equal
    · exact Or.inl (Nat.div_lt_of_lt_mul less)
    · right
      rw [equal]
      simp [ExtendedMantissa.shiftRightOne]

theorem initial_mantissa (m : Nat) (accuracy : Accuracy) :
    (ExtendedMantissa.ofMantissaAndAccuracy m accuracy).mantissa = m := by
  cases accuracy with
  | exact => rfl
  | inexact order => cases order <;> rfl

def roundedExponent (m : Nat) (e : Int) : Int :=
  Format.binary64.targetExponent (totalExponent m e)

theorem rounded_exponent_eq (m : Nat) (e : Int) :
    roundedExponent m e = max (m.log2 + e - 52) (-1074) := by
  have least : Format.binary64.minExponent = -1074 := by decide
  have bits : Format.binary64.mantissaBits = 53 := rfl
  simp only [roundedExponent, Format.targetExponent, totalExponent, least, bits]
  omega

theorem shift_to_target (m : Nat) (e : Int) (accuracy : Accuracy) :
    shiftToTargetExponent Format.binary64 m e accuracy =
      (ExtendedMantissa.ofMantissaAndAccuracy m accuracy >>> (roundedExponent m e - e).toNat,
        max e (roundedExponent m e)) := by
  simp only [shiftToTargetExponent, shiftToExponent, roundedExponent]
  congr 1
  omega

theorem log2_at_most {m k : Nat} (less : m < 2 ^ (k + 1)) : m.log2 ≤ k := by
  by_cases zero : m = 0
  · simp [zero]
  · exact Nat.le_of_lt_succ ((Nat.log2_lt zero).mpr less)

theorem shifted_below (m : Nat) (e : Int) :
    m / 2 ^ (roundedExponent m e - e).toNat < 2 ^ 53 := by
  have enough : m.log2 + 1 ≤ 53 + (roundedExponent m e - e).toNat := by
    rw [rounded_exponent_eq]
    omega
  rw [Nat.div_lt_iff_lt_mul (Nat.two_pow_pos _), ← Nat.pow_add]
  exact Nat.lt_of_lt_of_le Nat.lt_log2_self (Nat.pow_le_pow_right (by decide) enough)

theorem leading_bits {m : Nat} (long : 52 ≤ m.log2) : 2 ^ 52 ≤ m / 2 ^ (m.log2 - 52) := by
  have nonzero : m ≠ 0 := by
    rintro rfl
    simp at long
  rw [Nat.le_div_iff_mul_le (Nat.two_pow_pos _), ← Nat.pow_add, Nat.add_sub_cancel' long]
  exact Nat.log2_self_le nonzero

theorem full_quotient {m : Nat} {e : Int} (normal : -1074 < roundedExponent m e)
    (fine : e ≤ roundedExponent m e) : 2 ^ 52 ≤ m / 2 ^ (roundedExponent m e - e).toNat := by
  rw [rounded_exponent_eq] at normal fine
  have places : (roundedExponent m e - e).toNat = m.log2 - 52 := by
    rw [rounded_exponent_eq]
    omega
  rw [places]
  exact leading_bits (by omega)

def roundedOnce (m : Nat) (e : Int) (accuracy : Accuracy) : Nat :=
  (ExtendedMantissa.ofMantissaAndAccuracy m accuracy >>>
    (roundedExponent m e - e).toNat).roundedMantissa

theorem rounded_once_bounds (m : Nat) (e : Int) (accuracy : Accuracy) :
    m / 2 ^ (roundedExponent m e - e).toNat ≤ roundedOnce m e accuracy ∧
      roundedOnce m e accuracy ≤ m / 2 ^ (roundedExponent m e - e).toNat + 1 := by
  have bounds := rounded_bounds (ExtendedMantissa.ofMantissaAndAccuracy m accuracy >>>
    (roundedExponent m e - e).toNat)
  rwa [shifted_mantissa, initial_mantissa] at bounds

theorem rounded_result (s : Sign) (m : Nat) (e : Int) (accuracy : Accuracy) {r : Nat} {f : Int}
    (mantissa : roundedOnce m e accuracy = r) (exponent : max e (roundedExponent m e) = f) :
    roundWithAccuracy Format.binary64 s m e accuracy =
      if h : r / 2 ^ (roundedExponent r f - f).toNat = 0 then .zero s
      else .finite s (r / 2 ^ (roundedExponent r f - f).toNat) (max f (roundedExponent r f))
        (Nat.pos_of_ne_zero h) := by
  subst mantissa exponent
  simp only [roundWithAccuracy, shift_to_target, shifted_mantissa, initial_mantissa, roundedOnce]
  rfl

def InRange : UnpackedFloat → Prop
  | .zero _ => True
  | .finite _ _ e _ => e ≤ 971
  | _ => False

theorem size_of_at_most {m : Nat} {e : Int} {accuracy : Accuracy} (small : e ≤ 971)
    (atMost : AtMost (ExtendedMantissa.ofMantissaAndAccuracy m accuracy)
      (2 ^ (971 - e).toNat * (2 ^ 53 - 1))) : m.log2 + e ≤ 1023 := by
  have le : m ≤ 2 ^ (971 - e).toNat * (2 ^ 53 - 1) := by
    rcases atMost with less | equal
    · exact Nat.le_of_lt (initial_mantissa m accuracy ▸ less)
    · have := congrArg ExtendedMantissa.mantissa equal
      exact Nat.le_of_eq ((initial_mantissa m accuracy).symm.trans this)
  have less : m < 2 ^ ((971 - e).toNat + 52 + 1) := by
    rw [Nat.add_assoc, Nat.pow_add]
    exact Nat.lt_of_le_of_lt le (Nat.mul_lt_mul_of_pos_left (by decide) (Nat.two_pow_pos _))
  have := log2_at_most less
  omega

/-- At the greatest exponent alone rounding up could take a number out of the range, and there it
is at most the greatest mantissa. -/
theorem rounded_in_range (s : Sign) {m : Nat} {e : Int} {accuracy : Accuracy} (small : e ≤ 971)
    (atMost : AtMost (ExtendedMantissa.ofMantissaAndAccuracy m accuracy)
      (2 ^ (971 - e).toNat * (2 ^ 53 - 1))) :
    InRange (roundWithAccuracy Format.binary64 s m e accuracy) := by
  have size := size_of_at_most small atMost
  have first : max e (roundedExponent m e) ≤ 971 := by
    rw [rounded_exponent_eq]
    omega
  have second : roundedExponent (roundedOnce m e accuracy) (max e (roundedExponent m e)) ≤ 971 := by
    rw [rounded_exponent_eq (roundedOnce m e accuracy)]
    by_cases greatest : max e (roundedExponent m e) = 971
    · have places : (971 - e).toNat = (roundedExponent m e - e).toNat := by omega
      rw [places] at atMost
      have below : roundedOnce m e accuracy < 2 ^ (52 + 1) :=
        Nat.lt_of_le_of_lt (rounded_at_most (shifted_at_most atMost)) (by decide)
      have := log2_at_most below
      omega
    · have below : roundedOnce m e accuracy < 2 ^ (53 + 1) := by
        have := (rounded_once_bounds m e accuracy).2
        have := shifted_below m e
        omega
      have := log2_at_most below
      omega
  rw [rounded_result s m e accuracy rfl rfl]
  split
  · trivial
  · exact Int.max_le.mpr ⟨first, second⟩

/- Packing a number into its bits and taking it out again. -/

theorem unpacked_finite_iff (b : BitVec 64) :
    (UnpackedFloat.unpack Format.binary64 b).isFinite = true ↔
      @unpackExponent Format.binary64 b ≠ -1#_ := by
  unfold UnpackedFloat.unpack
  by_cases special : @unpackExponent Format.binary64 b = -1#_
  · refine iff_of_false ?_ (fun other => other special)
    simp only [special, ↓reduceIte]
    split <;> exact Bool.false_ne_true
  · refine iff_of_true ?_ special
    simp only [special, ↓reduceIte]
    split
    · split <;> rfl
    · rfl

theorem exponent_field (b : BitVec 64) :
    (@unpackExponent Format.binary64 b).toNat = b.toNat / 2 ^ 52 % 2 ^ 11 := by
  simp [unpackExponent, Nat.shiftRight_eq_div_pow]

theorem finite_iff_field (x : Float) :
    x.isFinite = true ↔ x.toBits.toNat / 2 ^ 52 % 2 ^ 11 ≠ 2047 := by
  have unpacked : x.isFinite =
      (UnpackedFloat.unpack Format.binary64 x.toModel.toBits.toBitVec).isFinite := rfl
  rw [unpacked, unpacked_finite_iff, Ne, ← BitVec.toNat_inj, exponent_field]
  rfl

theorem packed_bits (s : Sign) (m : Nat) (e : Int) (h : 0 < m) :
    (Float.Model.pack (.finite s m e h)).toBits.toBitVec =
      if 972 ≤ e then packedInfinity Format.binary64 s
      else if m.log2 = 52 then
        packComponents Format.binary64 s (BitVec.ofNat 11 (e + 1075).toNat) (BitVec.ofNat 52 m)
      else packComponents Format.binary64 s 0#11 (BitVec.ofNat 52 m) := by
  have bias : Format.binary64.exponentBias = 1023 := by decide
  have bits : Format.binary64.mantissaBits = 53 := rfl
  have field : e + (1023 : Nat) + (52 : Nat) = e + 1075 := by omega
  have overflows : 2 ^ 11 ≤ (e + 1075).toNat + 1 ↔ 972 ≤ e := by omega
  have normal : m.log2 + 1 = 53 ↔ m.log2 = 52 := by omega
  simp only [Float.Model.pack, UnpackedFloat.pack, bias, bits, field, overflows, normal]

theorem packed_finite {u : UnpackedFloat} (inRange : InRange u) :
    (Float.Model.pack u).unpack.isFinite = true := by
  refine (unpacked_finite_iff _).mpr ?_
  cases u with
  | infinity s => exact absurd inRange id
  | notANumber => exact absurd inRange id
  | zero s => cases s <;> decide
  | finite s m e h =>
    have most : e ≤ 971 := inRange
    rw [packed_bits, if_neg (by omega)]
    split
    · rw [unpackExponent_packComponents, Ne, ← BitVec.toNat_inj, BitVec.toNat_ofNat,
        Nat.mod_eq_of_lt (by omega)]
      simp only [BitVec.reduceNeg, BitVec.reduceToNat]
      omega
    · rw [unpackExponent_packComponents]
      decide

/- Numbers of at least one. -/

/-- An infinity or a number of full length whose absolute value is at least one. -/
def Large : UnpackedFloat → Prop
  | .infinity _ => True
  | .finite _ m e _ => m.log2 = 52 ∧ -52 ≤ e
  | _ => False

instance : DecidablePred Large
  | .infinity _ => isTrue trivial
  | .finite _ m e _ => inferInstanceAs (Decidable (m.log2 = 52 ∧ -52 ≤ e))
  | .zero _ | .notANumber => isFalse id

theorem rounded_large (s : Sign) {m : Nat} {e : Int} (accuracy : Accuracy) (long : 52 ≤ m.log2)
    (size : 0 ≤ m.log2 + e) : Large (roundWithAccuracy Format.binary64 s m e accuracy) := by
  have exponent : roundedExponent m e = m.log2 + e - 52 := by
    rw [rounded_exponent_eq]
    omega
  have places : (roundedExponent m e - e).toNat = m.log2 - 52 := by omega
  have first : max e (roundedExponent m e) = m.log2 + e - 52 := by omega
  have low := leading_bits long
  have high := shifted_below m e
  have bounds := rounded_once_bounds m e accuracy
  rw [places] at bounds high
  generalize mantissa : roundedOnce m e accuracy = r at bounds
  rw [rounded_result s m e accuracy mantissa first]
  generalize m.log2 + e - 52 = f at *
  rcases Nat.lt_or_eq_of_le (show r ≤ 2 ^ 53 by omega) with short | rfl
  · have length : r.log2 = 52 := (Nat.log2_eq_iff (by omega)).mpr ⟨by omega, short⟩
    have stays : roundedExponent r f = f := by
      rw [rounded_exponent_eq, length]
      omega
    simp only [stays, Int.sub_self, Int.toNat_zero, Nat.pow_zero, Nat.div_one]
    rw [dif_neg (by omega)]
    exact ⟨length, by omega⟩
  · have carried : roundedExponent (2 ^ 53) f = f + 1 := by
      rw [rounded_exponent_eq, Nat.log2_two_pow]
      omega
    have one : (f + 1 - f).toNat = 1 := by omega
    simp only [carried, one]
    exact ⟨by decide, by omega⟩

theorem packed_large {u : UnpackedFloat} (large : Large u) :
    Large (Float.Model.pack u).unpack := by
  cases u with
  | infinity s => cases s <;> trivial
  | notANumber => exact absurd large id
  | zero s => exact absurd large id
  | finite s m e h =>
    obtain ⟨length, least⟩ : m.log2 = 52 ∧ -52 ≤ e := large
    rw [Float.Model.unpack, packed_bits]
    split
    · cases s <;> trivial
    · have field : (BitVec.ofNat 11 (e + 1075).toNat).toNat = (e + 1075).toNat := by
        rw [BitVec.toNat_ofNat, Nat.mod_eq_of_lt (by omega)]
      have notSpecial : BitVec.ofNat 11 (e + 1075).toNat ≠ -1#11 := by
        rw [Ne, ← BitVec.toNat_inj, field]
        simp only [BitVec.reduceNeg, BitVec.reduceToNat]
        omega
      have notSmall : BitVec.ofNat 11 (e + 1075).toNat ≠ 0#11 := by
        rw [Ne, ← BitVec.toNat_inj, field]
        simp only [BitVec.reduceToNat]
        omega
      simp only [UnpackedFloat.unpack, unpackExponent_packComponents, unpackMantissa_packComponents,
        if_neg notSpecial, if_neg notSmall, field]
      have low : 2 ^ 52 ≤ (1#1 ++ BitVec.ofNat 52 m).toNat := by
        rw [BitVec.toNat_append]
        exact Nat.left_le_or
      have high : (1#1 ++ BitVec.ofNat 52 m).toNat < 2 ^ 53 := BitVec.isLt _
      have bias : Format.binary64.exponentBias = 1023 := by decide
      refine ⟨(Nat.log2_eq_iff (by omega)).mpr ⟨low, high⟩, ?_⟩
      rw [bias]
      omega

theorem log2_shifted {m : Nat} (k : Nat) (nonzero : m ≠ 0) : (m <<< k).log2 = m.log2 + k := by
  have nonzero' : m * 2 ^ k ≠ 0 := Nat.mul_ne_zero nonzero (Nat.ne_of_gt (Nat.two_pow_pos k))
  rw [Nat.shiftLeft_eq, Nat.log2_eq_iff nonzero', Nat.pow_add, Nat.add_right_comm, Nat.pow_add]
  exact ⟨Nat.mul_le_mul_right _ (Nat.log2_self_le nonzero),
    Nat.mul_lt_mul_of_pos_right Nat.lt_log2_self (Nat.two_pow_pos k)⟩

theorem whole_number_large {n : Nat} (positive : 0 < n) :
    Large (UnpackedFloat.ofNat Format.binary64 n) := by
  have order : compare (n : Int) 0 = .gt := Int.compare_eq_gt.mpr (by omega)
  simp only [UnpackedFloat.ofNat, UnpackedFloat.ofInt, UnpackedFloat.normalize, order,
    UnpackedFloat.round, UnpackedFloat.decreaseExponent, Int.toNat_natCast]
  have target := rounded_exponent_eq n 0
  rw [roundedExponent] at target
  rw [target]
  have length := log2_shifted (0 - max (n.log2 + 0 - 52 : Int) (-1074)).toNat
    (Nat.ne_of_gt positive)
  refine rounded_large _ _ ?_ ?_ <;> rw [length] <;> omega

theorem product_large {u v : UnpackedFloat} (left : Large u) (right : Large v) :
    Large (UnpackedFloat.mul Format.binary64 u v) := by
  cases u with
  | notANumber => exact absurd left id
  | zero s => exact absurd left id
  | infinity s =>
    cases v with
    | notANumber => exact absurd right id
    | zero t => exact absurd right id
    | infinity t => trivial
    | finite t n f h => trivial
  | finite s m e h =>
    cases v with
    | notANumber => exact absurd right id
    | zero t => exact absurd right id
    | infinity t => trivial
    | finite t n f h' =>
      obtain ⟨length, least⟩ : m.log2 = 52 ∧ -52 ≤ e := left
      obtain ⟨length', least'⟩ : n.log2 = 52 ∧ -52 ≤ f := right
      have low : 2 ^ 104 ≤ m * n := by
        have product := Nat.mul_le_mul (Nat.log2_self_le (Nat.ne_of_gt h))
          (Nat.log2_self_le (Nat.ne_of_gt h'))
        rwa [length, length', ← Nat.pow_add] at product
      have long : 104 ≤ (m * n).log2 := (Nat.le_log2 (Nat.ne_of_gt (Nat.mul_pos h h'))).mpr low
      exact rounded_large _ _ (by omega) (by omega)

theorem scientific_large {n : Nat} (positive : 0 < n) :
    Large (UnpackedFloat.ofScientific Format.binary64 n 0) := by
  have notZero : n ≠ 0 := Nat.ne_of_gt positive
  have length := log2_shifted 53 notZero
  have notHuge : ¬ (0 : Int) > 2 ^ 11 := by decide
  have notTiny : ¬ (0 : Int) < -((2 ^ 11 : Int) + n.log2) := by omega
  simp only [UnpackedFloat.ofScientific, notZero, notHuge, notTiny, ↓reduceDIte, ↓reduceIte,
    Int.le_refl, UnpackedFloat.mul]
  have bits : Format.binary64.mantissaBits = 53 := rfl
  rw [bits, Int.toNat_zero, Nat.pow_zero, Nat.mul_one]
  have long : 52 ≤ (n <<< 53).log2 := by rw [length]; omega
  have size : 0 ≤ (n <<< 53).log2 + (-(53 : Nat) + 0 : Int) := by rw [length]; omega
  generalize n <<< 53 = m at *
  exact rounded_large _ _ long size

theorem count_large {n : Nat} (positive : 0 < n) :
    Large (Scalar.count n : Float).toModel.unpack := by
  change Large (Float.ofScientific n false 0).toModel.unpack
  unfold Float.ofScientific
  split
  · rename_i small
    have whole : Large (Float.Model.ofUInt64 n.toUInt64).unpack := by
      refine packed_large ?_
      rw [ofUInt64, UInt64.toNat_ofNat', Nat.mod_eq_of_lt (by omega)]
      exact whole_number_large positive
    have one : Large (Float.ofBits 0x3FF0000000000000).toModel.unpack := by decide +kernel
    exact packed_large (product_large whole one)
  · exact packed_large (scientific_large positive)

def OfDouble : UnpackedFloat → Prop
  | .zero _ => True
  | .finite _ m e _ => m < 2 ^ 53 ∧ e ≤ 971
  | _ => False

theorem unpacked_of_double {b : BitVec 64}
    (finite : (UnpackedFloat.unpack Format.binary64 b).isFinite = true) :
    OfDouble (UnpackedFloat.unpack Format.binary64 b) := by
  have notSpecial := (unpacked_finite_iff b).mp finite
  have field : (@unpackExponent Format.binary64 b).toNat ≤ 2046 := by
    have size : (@unpackExponent Format.binary64 b).toNat < 2 ^ 11 := BitVec.isLt _
    have other : (@unpackExponent Format.binary64 b).toNat ≠ 2047 :=
      fun same => notSpecial (BitVec.eq_of_toNat_eq same)
    omega
  have bias : Format.binary64.exponentBias = 1023 := by decide
  unfold UnpackedFloat.unpack
  simp only [if_neg notSpecial]
  split
  · split
    · trivial
    · rename_i small _
      refine ⟨Nat.lt_trans (BitVec.isLt _) (by decide), ?_⟩
      rw [bias, small]
      decide
  · refine ⟨BitVec.isLt _, ?_⟩
    rw [bias]
    omega

theorem quotient_at_most {m n limit : Nat} (bound : m ≤ limit * n) :
    AtMost (ExtendedMantissa.ofMantissaAndAccuracy (m / n) (accuracyOfFraction (m % n) n))
      limit := by
  rcases Nat.lt_or_eq_of_le (Nat.div_le_of_le_mul (Nat.mul_comm limit n ▸ bound)) with less | equal
  · exact Or.inl (by rwa [initial_mantissa])
  · right
    have whole : m % n = 0 := by
      have parts := Nat.div_add_mod m n
      rw [equal, Nat.mul_comm] at parts
      omega
    rw [equal, whole]
    rfl

theorem divided_in_range {s t : Sign} {m n : Nat} {e f : Int} {h : 0 < m} {h' : 0 < n}
    (short : m < 2 ^ 53) (small : e ≤ 971) (large : Large (.finite t n f h')) :
    InRange (UnpackedFloat.div Format.binary64 (.finite s m e h) (.finite t n f h')) := by
  obtain ⟨length, least⟩ : n.log2 = 52 ∧ -52 ≤ f := large
  have low : 2 ^ 52 ≤ n := length ▸ Nat.log2_self_le (Nat.ne_of_gt h')
  have most : m ≤ 2 ^ 53 - 1 := by omega
  simp only [UnpackedFloat.div, divCore]
  generalize start : min (e - f) (Format.binary64.targetExponent
    (totalExponent m e - totalExponent n f)) = g
  have target : g ≤ 971 := by
    have bits : Format.binary64.mantissaBits = 53 := rfl
    have least' : Format.binary64.minExponent = -1074 := by decide
    have length' := log2_at_most short
    simp only [Format.targetExponent, totalExponent, bits, least', length] at start
    omega
  refine rounded_in_range _ target (quotient_at_most ?_)
  have places : (e - f - g).toNat ≤ (971 - g).toNat + 52 := by omega
  calc m <<< (e - f - g).toNat = m * 2 ^ (e - f - g).toNat := Nat.shiftLeft_eq _ _
    _ ≤ (2 ^ 53 - 1) * 2 ^ ((971 - g).toNat + 52) :=
      Nat.mul_le_mul most (Nat.pow_le_pow_right (by decide) places)
    _ = 2 ^ (971 - g).toNat * (2 ^ 53 - 1) * 2 ^ 52 := by rw [Nat.pow_add]; ac_rfl
    _ ≤ 2 ^ (971 - g).toNat * (2 ^ 53 - 1) * n := Nat.mul_le_mul_left _ low

theorem quotient_in_range {u v : UnpackedFloat} (double : OfDouble u) (large : Large v) :
    InRange (UnpackedFloat.div Format.binary64 u v) := by
  cases v with
  | notANumber => exact absurd large id
  | zero t => exact absurd large id
  | infinity t =>
    cases u with
    | notANumber => exact absurd double id
    | infinity s => exact absurd double id
    | zero s => trivial
    | finite s m e h => trivial
  | finite t n f h' =>
    cases u with
    | notANumber => exact absurd double id
    | infinity s => exact absurd double id
    | zero s => trivial
    | finite s m e h => exact divided_in_range double.1 double.2 large

theorem quotient_finite {x y : Float} (finite : x.isFinite = true)
    (large : Large y.toModel.unpack) : (x / y).isFinite = true :=
  packed_finite (quotient_in_range (unpacked_of_double finite) large)

theorem mean_finite {xs : List Float} (some : xs ≠ []) (finite : (Scalar.sum xs).isFinite = true) :
    (Scalar.mean xs).isFinite = true :=
  quotient_finite finite (count_large (List.length_pos_iff.mpr some))

end Authorship
