import Authorship.Proofs.DoubleSign

/-
How counts of things are rounded to doubles. A count is the double that is nearest to it, and
rounding does not change the order of two numbers, so that a part is at most its whole as a double
too.
-/
namespace Authorship

open Float.Model (UnpackedFloat Format totalExponent)
open Float.Model.UnpackedFloat

/- The order of mantissas with their residual bits. -/

def rank (em : ExtendedMantissa) : Nat :=
  4 * em.mantissa + 2 * em.roundBit.toNat + em.stickyBit.toNat

theorem shift_one_mono {em em' : ExtendedMantissa} (le : rank em ≤ rank em') :
    rank em.shiftRightOne ≤ rank em'.shiftRightOne := by
  obtain ⟨m, half, below⟩ := em
  obtain ⟨n, half', below'⟩ := em'
  have bit (k : Nat) : (k % 2 != 0).toNat = k % 2 := by
    rcases Nat.mod_two_eq_zero_or_one k with even | odd
    · simp [even]
    · simp [odd]
  simp only [rank, ExtendedMantissa.shiftRightOne, bit] at le ⊢
  cases half <;> cases below <;> cases half' <;> cases below' <;>
    simp only [Bool.toNat_false, Bool.toNat_true, Bool.or_false, Bool.or_true] at le ⊢ <;> omega

theorem shifted_mono {em em' : ExtendedMantissa} (le : rank em ≤ rank em') (k : Nat) :
    rank (em >>> k) ≤ rank (em' >>> k) := by
  induction k with
  | zero => exact le
  | succ k ih => exact shift_one_mono ih

theorem rounded_mono {em em' : ExtendedMantissa} (le : rank em ≤ rank em') :
    em.roundedMantissa ≤ em'.roundedMantissa := by
  obtain ⟨m, half, below⟩ := em
  obtain ⟨n, half', below'⟩ := em'
  simp only [rank] at le
  cases half <;> cases below <;> cases half' <;> cases below' <;>
    simp only [Bool.toNat_false, Bool.toNat_true, ExtendedMantissa.roundedMantissa,
      ExtendedMantissa.accuracy, Accuracy.roundToNearestEven] at le ⊢ <;> omega

/- Numbers with more bits than a double keeps. -/

theorem shift_one_first (em : ExtendedMantissa) (k : Nat) :
    em >>> (k + 1) = em.shiftRightOne >>> k := by
  induction k with
  | zero => rfl
  | succ k ih => rw [shift_succ, ih, ← shift_succ]

theorem rounded_doubled (s : Sign) {m : Nat} (e : Int) (long : 52 ≤ m.log2)
    (least : -1022 ≤ m.log2 + e) :
    roundWithAccuracy Format.binary64 s (2 * m) (e - 1) .exact =
      roundWithAccuracy Format.binary64 s m e .exact := by
  have nonzero : m ≠ 0 := by
    rintro rfl
    simp at long
  have length : (2 * m).log2 = m.log2 + 1 := Nat.log2_two_mul nonzero
  have exponent : roundedExponent (2 * m) (e - 1) = roundedExponent m e := by
    rw [rounded_exponent_eq, rounded_exponent_eq, length]
    omega
  have target := rounded_exponent_eq m e
  have places : (roundedExponent m e - (e - 1)).toNat = (roundedExponent m e - e).toNat + 1 := by
    omega
  have halved : (ExtendedMantissa.ofMantissaAndAccuracy (2 * m) .exact).shiftRightOne =
      ExtendedMantissa.ofMantissaAndAccuracy m .exact := by
    simp [ExtendedMantissa.ofMantissaAndAccuracy, ExtendedMantissa.shiftRightOne]
  have mantissa : roundedOnce (2 * m) (e - 1) .exact = roundedOnce m e .exact := by
    rw [roundedOnce, exponent, places, shift_one_first, halved, roundedOnce]
  rw [rounded_result s (2 * m) (e - 1) .exact mantissa rfl, rounded_result s m e .exact rfl rfl]
  have same : max (e - 1) (roundedExponent (2 * m) (e - 1)) = max e (roundedExponent m e) := by
    omega
  simp only [same]

def nearest (n : Nat) : UnpackedFloat :=
  roundWithAccuracy Format.binary64 .positive (n * 2 ^ 52) (-52) .exact

theorem log2_scaled {n : Nat} (positive : 0 < n) (k : Nat) : (n * 2 ^ k).log2 = n.log2 + k := by
  rw [← Nat.shiftLeft_eq]
  exact log2_shifted k (Nat.ne_of_gt positive)

theorem rounded_nearest {n : Nat} (positive : 0 < n) (k : Nat) :
    roundWithAccuracy Format.binary64 .positive (n * 2 ^ (52 + k)) (-52 - k) .exact =
      nearest n := by
  induction k with
  | zero => rfl
  | succ k ih =>
    have length := log2_scaled positive (52 + k)
    have twice : n * 2 ^ (52 + (k + 1)) = 2 * (n * 2 ^ (52 + k)) := by
      rw [← Nat.add_assoc, Nat.pow_succ, ← Nat.mul_assoc, Nat.mul_comm]
    have lower : (-52 - (k + 1 : Nat) : Int) = -52 - k - 1 := by omega
    rw [twice, lower, rounded_doubled .positive (-52 - k : Int) (by omega) (by omega), ih]

def nearestMantissa (n : Nat) : Nat :=
  (ExtendedMantissa.ofMantissaAndAccuracy (n * 2 ^ 52) .exact >>> n.log2).roundedMantissa

theorem nearest_exponent {n : Nat} (positive : 0 < n) :
    roundedExponent (n * 2 ^ 52) (-52) = n.log2 - 52 := by
  rw [rounded_exponent_eq, log2_scaled positive 52]
  omega

theorem nearest_places {n : Nat} (positive : 0 < n) :
    (roundedExponent (n * 2 ^ 52) (-52) - -52).toNat = n.log2 := by
  have exponent := nearest_exponent positive
  omega

theorem nearest_mantissa_eq {n : Nat} (positive : 0 < n) :
    roundedOnce (n * 2 ^ 52) (-52) .exact = nearestMantissa n := by
  rw [roundedOnce, nearest_places positive, nearestMantissa]

theorem nearest_mantissa_bounds {n : Nat} (positive : 0 < n) :
    2 ^ 52 ≤ nearestMantissa n ∧ nearestMantissa n ≤ 2 ^ 53 := by
  have low : 2 ^ 52 ≤ n * 2 ^ 52 / 2 ^ n.log2 := by
    rw [Nat.le_div_iff_mul_le (Nat.two_pow_pos _), Nat.mul_comm]
    exact Nat.mul_le_mul_right _ (Nat.log2_self_le (Nat.ne_of_gt positive))
  have high := shifted_below (n * 2 ^ 52) (-52)
  have bounds := rounded_once_bounds (n * 2 ^ 52) (-52) .exact
  rw [nearest_places positive] at high bounds
  rw [nearest_mantissa_eq positive] at bounds
  omega

theorem nearest_cases {n : Nat} (positive : 0 < n) :
    (2 ^ 52 ≤ nearestMantissa n ∧ nearestMantissa n < 2 ^ 53 ∧
      ∃ h, nearest n = .finite .positive (nearestMantissa n) (n.log2 - 52) h) ∨
    (nearestMantissa n = 2 ^ 53 ∧
      ∃ h, nearest n = .finite .positive (2 ^ 52) (n.log2 - 51) h) := by
  have exponent := nearest_exponent positive
  have first : max (-52) (roundedExponent (n * 2 ^ 52) (-52)) = (n.log2 - 52 : Int) := by omega
  obtain ⟨low, high⟩ := nearest_mantissa_bounds positive
  rw [nearest, rounded_result .positive _ _ _ (nearest_mantissa_eq positive) first]
  generalize nearestMantissa n = r at low high
  rcases Nat.lt_or_eq_of_le high with short | rfl
  · left
    have length : r.log2 = 52 := (Nat.log2_eq_iff (by omega)).mpr ⟨low, short⟩
    have stays : roundedExponent r (n.log2 - 52) = n.log2 - 52 := by
      rw [rounded_exponent_eq, length]
      omega
    refine ⟨low, short, by omega, ?_⟩
    simp only [stays, Int.sub_self, Int.toNat_zero, Nat.pow_zero, Nat.div_one, Int.max_self]
    rw [dif_neg (by omega)]
  · right
    have carried : roundedExponent (2 ^ 53) (n.log2 - 52) = n.log2 - 51 := by
      rw [rounded_exponent_eq, Nat.log2_two_pow]
      omega
    have one : (n.log2 - 51 - (n.log2 - 52) : Int).toNat = 1 := by omega
    have next : max (n.log2 - 52 : Int) (n.log2 - 51) = n.log2 - 51 := by omega
    refine ⟨rfl, by decide, ?_⟩
    simp only [carried, one, next]
    rfl

/-- In the order of positive doubles the first is not above the second. -/
def NotAbove : UnpackedFloat → UnpackedFloat → Prop
  | .zero _, .finite .. => True
  | .finite _ m e _, .finite _ n f _ => e < f ∨ e = f ∧ m ≤ n
  | _, _ => False

theorem nearest_mono {m n : Nat} (positive : 0 < m) (le : m ≤ n) :
    NotAbove (nearest m) (nearest n) := by
  have lengths : m.log2 ≤ n.log2 :=
    (Nat.le_log2 (by omega)).mpr ((Nat.log2_self_le (Nat.ne_of_gt positive)).trans le)
  have equal (same : m.log2 = n.log2) : nearestMantissa m ≤ nearestMantissa n := by
    rw [nearestMantissa, nearestMantissa, ← same]
    refine rounded_mono (shifted_mono ?_ m.log2)
    have scaled := Nat.mul_le_mul_right (2 ^ 52) le
    simp only [rank, ExtendedMantissa.ofMantissaAndAccuracy, Bool.toNat_false]
    omega
  rcases nearest_cases positive with ⟨low, high, h, eq⟩ | ⟨full, h, eq⟩ <;>
    rcases nearest_cases (Nat.lt_of_lt_of_le positive le) with
      ⟨low', high', h', eq'⟩ | ⟨full', h', eq'⟩ <;>
    rw [eq, eq'] <;> simp only [NotAbove] <;> omega

theorem unpacked_normal (s : Sign) {m : Nat} {e : Int} (h : 0 < m) (length : m.log2 = 52)
    (least : -1074 ≤ e) (most : e ≤ 971) :
    (Float.Model.pack (.finite s m e h)).unpack = .finite s m e h := by
  have field : (BitVec.ofNat 11 (e + 1075).toNat).toNat = (e + 1075).toNat := by
    rw [BitVec.toNat_ofNat, Nat.mod_eq_of_lt (by omega)]
  have notSpecial : BitVec.ofNat 11 (e + 1075).toNat ≠ -1#11 := by
    rw [Ne, ← BitVec.toNat_inj, field]
    simp only [BitVec.reduceNeg, BitVec.reduceToNat]
    omega
  have notSmall : BitVec.ofNat 11 (e + 1075).toNat ≠ 0#11 := by
    rw [Ne, ← BitVec.toNat_inj, field]
    simp only [BitVec.reduceToNat]
    omega
  obtain ⟨low, high⟩ := (Nat.log2_eq_iff (Nat.ne_of_gt h)).mp length
  have mantissa : (1#1 ++ BitVec.ofNat 52 m).toNat = m := by
    have parts : 2 ^ 52 * 1 + m % 2 ^ 52 = 2 ^ 52 * 1 ||| m % 2 ^ 52 :=
      Nat.two_pow_add_eq_or_of_lt (Nat.mod_lt m (by decide)) 1
    rw [BitVec.toNat_append, BitVec.toNat_ofNat, BitVec.toNat_ofNat, Nat.shiftLeft_eq,
      show 1 % 2 ^ 1 * 2 ^ 52 = 2 ^ 52 * 1 from rfl]
    omega
  have bias : Format.binary64.exponentBias = 1023 := by decide
  rw [Float.Model.unpack, packed_bits, if_neg (by omega), if_pos length]
  simp only [UnpackedFloat.unpack, unpackExponent_packComponents, unpackMantissa_packComponents,
    unpackSign_packComponents, Sign.ofBitVec_toBitVec, if_neg notSpecial, if_neg notSmall, field,
    mantissa, bias]
  congr 1
  omega

theorem unpacked_nearest {n : Nat} (positive : 0 < n) (small : n.log2 < 1023) :
    (Float.Model.pack (nearest n)).unpack = nearest n := by
  rcases nearest_cases positive with ⟨low, high, h, eq⟩ | ⟨full, h, eq⟩
  · have length' : (nearestMantissa n).log2 = 52 :=
      (Nat.log2_eq_iff (by omega)).mpr ⟨low, high⟩
    rw [eq]
    exact unpacked_normal .positive h length' (by omega) (by omega)
  · rw [eq]
    exact unpacked_normal .positive h (Nat.log2_two_pow) (by omega) (by omega)

/-- A whole number of no more bits than a double has is not rounded at all. -/
theorem whole_number_exact {n : Nat} (positive : 0 < n) (short : n < 2 ^ 53) :
    ∃ h, UnpackedFloat.ofNat Format.binary64 n =
      .finite .positive (n * 2 ^ (52 - n.log2)) (n.log2 - 52) h := by
  have bits : n.log2 < 53 := (Nat.log2_lt (Nat.ne_of_gt positive)).mpr short
  have order : compare (n : Int) 0 = .gt := Int.compare_eq_gt.mpr (by omega)
  have target : Format.binary64.targetExponent (totalExponent n 0) = n.log2 - 52 := by
    have exponent := rounded_exponent_eq n 0
    rw [roundedExponent] at exponent
    omega
  have places : (0 - (n.log2 - 52) : Int).toNat = 52 - n.log2 := by omega
  have lowered : (0 - (52 - n.log2 : Nat) : Int) = n.log2 - 52 := by omega
  have length : (n * 2 ^ (52 - n.log2)).log2 = 52 := by
    rw [log2_scaled positive]
    omega
  have stays : roundedExponent (n * 2 ^ (52 - n.log2)) (n.log2 - 52) = n.log2 - 52 := by
    rw [rounded_exponent_eq, length]
    omega
  have mantissa : roundedOnce (n * 2 ^ (52 - n.log2)) (n.log2 - 52) .exact =
      n * 2 ^ (52 - n.log2) := by
    rw [roundedOnce, stays, Int.sub_self]
    rfl
  have nonzero : 0 < n * 2 ^ (52 - n.log2) := Nat.mul_pos positive (Nat.two_pow_pos _)
  refine ⟨nonzero, ?_⟩
  simp only [UnpackedFloat.ofNat, UnpackedFloat.ofInt, UnpackedFloat.normalize, order,
    UnpackedFloat.round, UnpackedFloat.decreaseExponent, Int.toNat_natCast, target, places, lowered,
    Nat.shiftLeft_eq]
  rw [rounded_result .positive _ _ _ mantissa (by rw [stays, Int.max_self])]
  simp only [stays, Int.sub_self, Int.toNat_zero, Nat.pow_zero, Nat.div_one, Int.max_self]
  rw [dif_neg (Nat.ne_of_gt nonzero)]

theorem short_product_nearest {n : Nat} (positive : 0 < n) (short : n < 2 ^ 53) :
    UnpackedFloat.mul Format.binary64 (Float.Model.ofUInt64 n.toUInt64).unpack
      (Float.ofBits 0x3FF0000000000000).toModel.unpack = nearest n := by
  have bits : n.log2 < 53 := (Nat.log2_lt (Nat.ne_of_gt positive)).mpr short
  obtain ⟨h, kept⟩ := whole_number_exact positive short
  have length : (n * 2 ^ (52 - n.log2)).log2 = 52 := by
    rw [log2_scaled positive]
    omega
  have whole : (Float.Model.ofUInt64 n.toUInt64).unpack =
      .finite .positive (n * 2 ^ (52 - n.log2)) (n.log2 - 52) h := by
    change (Float.Model.pack (UnpackedFloat.ofUInt64 Format.binary64 n.toUInt64)).unpack = _
    rw [ofUInt64, UInt64.toNat_ofNat', Nat.mod_eq_of_lt (by omega), kept]
    exact unpacked_normal .positive h length (by omega) (by omega)
  have one : (Float.ofBits 0x3FF0000000000000).toModel.unpack =
      .finite .positive (2 ^ 52) (-52) (by decide) := by rfl
  have zeros : n * 2 ^ (52 - n.log2) * 2 ^ 52 = n * 2 ^ (52 + (52 - n.log2)) := by
    rw [Nat.mul_assoc, ← Nat.pow_add, Nat.add_comm]
  have places : (n.log2 - 52 + -52 : Int) = -52 - (52 - n.log2 : Nat) := by omega
  rw [whole, one]
  change roundWithAccuracy Format.binary64 .positive _ _ .exact = _
  rw [zeros, places, rounded_nearest positive]

theorem scientific_nearest {n k : Nat} (positive : 0 < n) (few : k ≤ 2 ^ 11) :
    UnpackedFloat.ofScientific Format.binary64 n k = nearest (n * 10 ^ k) := by
  have notZero : n ≠ 0 := Nat.ne_of_gt positive
  have notHuge : ¬ (k : Int) > 2 ^ 11 := by omega
  have notTiny : ¬ (k : Int) < -((2 ^ 11 : Int) + n.log2) := by omega
  have least : (0 : Int) ≤ k := Int.natCast_nonneg k
  simp only [UnpackedFloat.ofScientific, notZero, notHuge, notTiny, least, ↓reduceDIte, ↓reduceIte,
    UnpackedFloat.mul, Nat.shiftLeft_eq, Int.toNat_natCast, Int.add_zero, Nat.mul_right_comm n]
  exact rounded_nearest (Nat.mul_pos positive (Nat.pow_pos (by decide))) 1

/-- Both ways to make a count a double, the product for short numbers and the general one, round to
the nearest. -/
theorem count_nearest {n : Nat} (positive : 0 < n) (small : n < 2 ^ 256) :
    (Scalar.count n : Float).toModel.unpack = nearest n := by
  have length : n.log2 < 256 := (Nat.log2_lt (Nat.ne_of_gt positive)).mpr small
  have small' : n.log2 < 1023 := by omega
  change (Float.ofScientific n false 0).toModel.unpack = nearest n
  unfold Float.ofScientific
  split
  · rename_i short
    change (Float.Model.pack (UnpackedFloat.mul Format.binary64
      (Float.Model.ofUInt64 n.toUInt64).unpack
      (Float.ofBits 0x3FF0000000000000).toModel.unpack)).unpack = _
    rw [short_product_nearest positive short.1]
    exact unpacked_nearest positive small'
  · change (Float.Model.pack (UnpackedFloat.ofScientific Format.binary64 n (0 : Nat))).unpack = _
    rw [scientific_nearest positive (Nat.zero_le _), Nat.pow_zero, Nat.mul_one]
    exact unpacked_nearest positive small'

theorem counts_in_order {m n : Nat} (positive : 0 < m) (le : m ≤ n) (small : n < 2 ^ 256) :
    NotAbove (Scalar.count m : Float).toModel.unpack (Scalar.count n : Float).toModel.unpack := by
  rw [count_nearest positive (Nat.lt_of_le_of_lt le small),
    count_nearest (Nat.lt_of_lt_of_le positive le) small]
  exact nearest_mono positive le

end Authorship
