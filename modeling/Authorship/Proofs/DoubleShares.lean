import Authorship.Analysis.Style
import Authorship.Proofs.DoubleCounts

/-
Shares as doubles. The quotient of a part by its whole is at most one before it is rounded, one is a
double, and so it is at most one after that. A weighted sum of ratios need not be, but it is a
number and not below zero, so that clamping makes it a share.
-/
namespace Authorship

open Float.Model (UnpackedFloat Format totalExponent)
open Float.Model.UnpackedFloat

def Scalar.IsShare {α : Type} [Scalar α] (x : α) : Prop := zero ≤ x ∧ x ≤ one

instance {α : Type} [Scalar α] (x : α) : Decidable (Scalar.IsShare x) :=
  inferInstanceAs (Decidable (Scalar.zero ≤ x ∧ x ≤ Scalar.one))

def AtMostOne : UnpackedFloat → Prop
  | .zero _ => True
  | .finite _ m e _ => e < -52 ∨ e = -52 ∧ m ≤ 2 ^ 52
  | _ => False

theorem exponent_at_most_one {m : Nat} {e : Int} (small : e ≤ -52) (le : m ≤ 2 ^ (-e).toNat) :
    roundedExponent m e ≤ -52 := by
  have less : m < 2 ^ ((-e).toNat + 1) :=
    Nat.lt_of_le_of_lt le (Nat.pow_lt_pow_right (by decide) (Nat.lt_succ_self _))
  have bits := log2_at_most less
  rw [rounded_exponent_eq]
  omega

theorem rounded_at_most_one (s : Sign) {m : Nat} {e : Int} {accuracy : Accuracy} (small : e ≤ -52)
    (atMost : AtMost (ExtendedMantissa.ofMantissaAndAccuracy m accuracy) (2 ^ (-e).toNat)) :
    AtMostOne (roundWithAccuracy Format.binary64 s m e accuracy) := by
  have le : m ≤ 2 ^ (-e).toNat := by
    rcases atMost with less | equal
    · exact Nat.le_of_lt (initial_mantissa m accuracy ▸ less)
    · have := congrArg ExtendedMantissa.mantissa equal
      exact Nat.le_of_eq ((initial_mantissa m accuracy).symm.trans this)
  have first := exponent_at_most_one small le
  generalize exponent : max e (roundedExponent m e) = f
  have rest : (-e).toNat = (roundedExponent m e - e).toNat + (-f).toNat := by omega
  have once : roundedOnce m e accuracy ≤ 2 ^ (-f).toNat := by
    rw [rest, Nat.pow_add] at atMost
    exact rounded_at_most (shifted_at_most atMost)
  generalize mantissa : roundedOnce m e accuracy = r at once
  rw [rounded_result s m e accuracy mantissa exponent]
  have second := exponent_at_most_one (by omega) once
  have rest' : (-f).toNat =
      (roundedExponent r f - f).toNat + (-max f (roundedExponent r f)).toNat := by
    omega
  have twice : r / 2 ^ (roundedExponent r f - f).toNat ≤
      2 ^ (-max f (roundedExponent r f)).toNat := by
    refine Nat.div_le_of_le_mul ?_
    rwa [← Nat.pow_add, ← rest']
  split
  · trivial
  · rcases Int.lt_or_eq_of_le (show max f (roundedExponent r f) ≤ -52 by omega) with less | equal
    · exact Or.inl less
    · rw [equal] at twice
      exact Or.inr ⟨equal, twice⟩

theorem components_at_most_one (s : Sign) {exponent : BitVec 11} (mantissa : BitVec 52)
    (small : exponent.toNat ≤ 1022) :
    AtMostOne (UnpackedFloat.unpack Format.binary64
      (packComponents Format.binary64 s exponent mantissa)) := by
  have notSpecial : exponent ≠ -1#11 := by
    rw [Ne, ← BitVec.toNat_inj]
    simp only [BitVec.reduceNeg, BitVec.reduceToNat]
    omega
  have bias : Format.binary64.exponentBias = 1023 := by decide
  simp only [UnpackedFloat.unpack, unpackExponent_packComponents, unpackMantissa_packComponents,
    if_neg notSpecial]
  split
  · split
    · trivial
    · refine Or.inl ?_
      rw [bias]
      rename_i zero _
      rw [zero]
      decide
  · refine Or.inl ?_
    rw [bias]
    omega

theorem packed_at_most_one {u : UnpackedFloat} (atMost : AtMostOne u) :
    AtMostOne (Float.Model.pack u).unpack := by
  cases u with
  | notANumber => exact absurd atMost id
  | infinity s => exact absurd atMost id
  | zero s => exact components_at_most_one s 0#52 (by decide : (0#11).toNat ≤ 1022)
  | finite s m e h =>
    have small : e < -52 ∨ e = -52 ∧ m ≤ 2 ^ 52 := atMost
    by_cases one : m.log2 = 52 ∧ e = -52
    · rw [unpacked_normal s h one.1 (by omega) (by omega)]
      exact atMost
    rw [Float.Model.unpack, packed_bits, if_neg (by omega)]
    split
    · refine components_at_most_one s _ ?_
      rw [BitVec.toNat_ofNat]
      exact (Nat.mod_le _ _).trans (by omega)
    · exact components_at_most_one s _ (by decide)

theorem divided_at_most_one {s t : Sign} {m n : Nat} {e f : Int} {h : 0 < m} {h' : 0 < n}
    (length : m.log2 = 52) (length' : n.log2 = 52) (order : e < f ∨ e = f ∧ m ≤ n) :
    AtMostOne (UnpackedFloat.div Format.binary64 (.finite s m e h) (.finite t n f h')) := by
  have short : m < 2 ^ 53 := ((Nat.log2_eq_iff (Nat.ne_of_gt h)).mp length).2
  have low : 2 ^ 52 ≤ n := length' ▸ Nat.log2_self_le (Nat.ne_of_gt h')
  simp only [UnpackedFloat.div, divCore]
  generalize start : min (e - f) (Format.binary64.targetExponent
    (totalExponent m e - totalExponent n f)) = g
  have target : g ≤ -53 ∧ g ≤ e - f := by
    have bits : Format.binary64.mantissaBits = 53 := rfl
    have least : Format.binary64.minExponent = -1074 := by decide
    simp only [Format.targetExponent, totalExponent, bits, least, length, length'] at start
    omega
  refine rounded_at_most_one _ (by omega) (quotient_at_most ?_)
  rw [Nat.shiftLeft_eq]
  rcases order with less | ⟨rfl, le⟩
  · have places : (-g).toNat = (e - f - g).toNat + (f - e).toNat := by omega
    have halved : 2 ≤ 2 ^ (f - e).toNat := Nat.le_self_pow (by omega) 2
    calc m * 2 ^ (e - f - g).toNat ≤ 2 * n * 2 ^ (e - f - g).toNat :=
          Nat.mul_le_mul_right _ (by omega)
      _ ≤ 2 ^ (f - e).toNat * n * 2 ^ (e - f - g).toNat :=
          Nat.mul_le_mul_right _ (Nat.mul_le_mul_right _ halved)
      _ = 2 ^ (-g).toNat * n := by rw [places, Nat.pow_add]; ac_rfl
  · have places : (e - e - g).toNat = (-g).toNat := by omega
    rw [places, Nat.mul_comm]
    exact Nat.mul_le_mul_left _ le

theorem quotient_at_most_one {u v : UnpackedFloat} (order : NotAbove u v) (large : Large u)
    (large' : Large v) : AtMostOne (UnpackedFloat.div Format.binary64 u v) := by
  cases v with
  | notANumber => exact absurd large' id
  | zero t => exact absurd large' id
  | infinity t => cases u <;> exact absurd order id
  | finite t n f h' =>
    cases u with
    | notANumber => exact absurd large id
    | zero s => exact absurd large id
    | infinity s => exact absurd order id
    | finite s m e h => exact divided_at_most_one large.1 large'.1 order

/- Numbers that are not below zero. -/

def NotBelowZero : UnpackedFloat → Prop
  | .notANumber => False
  | .infinity s | .zero s | .finite s _ _ _ => s = .positive

theorem rounded_not_below (m : Nat) (e : Int) (accuracy : Accuracy) :
    NotBelowZero (roundWithAccuracy Format.binary64 .positive m e accuracy) := by
  rw [rounded_result .positive m e accuracy rfl rfl]
  split <;> rfl

theorem quotient_not_below {u : UnpackedFloat} (notBelow : NotBelowZero u) {n : Nat} {f : Int}
    (h : 0 < n) : NotBelowZero (UnpackedFloat.div Format.binary64 u (.finite .positive n f h)) := by
  cases u with
  | notANumber => exact absurd notBelow id
  | infinity s =>
    obtain rfl : s = .positive := notBelow
    rfl
  | zero s =>
    obtain rfl : s = .positive := notBelow
    rfl
  | finite s m e h' =>
    obtain rfl : s = .positive := notBelow
    exact rounded_not_below _ _ _

theorem product_not_below {m : Nat} {e : Int} (h : 0 < m) {v : UnpackedFloat}
    (notBelow : NotBelowZero v) :
    NotBelowZero (UnpackedFloat.mul Format.binary64 (.finite .positive m e h) v) := by
  cases v with
  | notANumber => exact absurd notBelow id
  | infinity t =>
    obtain rfl : t = .positive := notBelow
    rfl
  | zero t =>
    obtain rfl : t = .positive := notBelow
    rfl
  | finite t n f h' =>
    obtain rfl : t = .positive := notBelow
    exact rounded_not_below _ _ _

theorem finite_sum_not_below {m n : Nat} {e f : Int} (h : 0 < m) (h' : 0 < n) :
    NotBelowZero (UnpackedFloat.add Format.binary64 (.finite .positive m e h)
      (.finite .positive n f h')) := by
  have above (k : Nat) {m : Nat} (h : 0 < m) : 0 < m <<< k := by
    rw [Nat.shiftLeft_eq]
    exact Nat.mul_pos h (Nat.two_pow_pos k)
  have order : compare (Sign.positive.apply (m <<< (e - min e f).toNat) +
      Sign.positive.apply (n <<< (f - min e f).toNat)) 0 = .gt := by
    have left := above (e - min e f).toNat h
    have right := above (f - min e f).toNat h'
    refine Int.compare_eq_gt.mpr ?_
    simp only [Sign.apply]
    omega
  simp only [UnpackedFloat.add, decreaseExponent, UnpackedFloat.normalize, UnpackedFloat.round,
    order]
  exact rounded_not_below _ _ _

theorem sum_not_below {u v : UnpackedFloat} (left : NotBelowZero u) (right : NotBelowZero v) :
    NotBelowZero (UnpackedFloat.add Format.binary64 u v) := by
  cases u with
  | notANumber => exact absurd left id
  | infinity s =>
    obtain rfl : s = .positive := left
    cases v with
    | notANumber => exact absurd right id
    | infinity t =>
      obtain rfl : t = .positive := right
      rfl
    | zero t => rfl
    | finite t n f h => rfl
  | zero s =>
    obtain rfl : s = .positive := left
    cases v with
    | notANumber => exact absurd right id
    | infinity t => exact right
    | zero t =>
      obtain rfl : t = .positive := right
      rfl
    | finite t n f h => exact right
  | finite s m e h =>
    obtain rfl : s = .positive := left
    cases v with
    | notANumber => exact absurd right id
    | infinity t => exact right
    | zero t => rfl
    | finite t n f h' =>
      obtain rfl : t = .positive := right
      exact finite_sum_not_below h h'

theorem packed_not_below {u : UnpackedFloat} (notBelow : NotBelowZero u) :
    NotBelowZero (Float.Model.pack u).unpack := by
  have ofFinite (sign : HasSign .positive u) (inRange : InRange u) :
      NotBelowZero (Float.Model.pack u).unpack := by
    have finite := packed_finite inRange
    have sign := packed_sign sign
    cases kind : (Float.Model.pack u).unpack <;>
      simp_all [UnpackedFloat.isFinite, HasSign, NotBelowZero]
  cases u with
  | notANumber => exact absurd notBelow id
  | infinity s =>
    obtain rfl : s = .positive := notBelow
    rfl
  | zero s => exact ofFinite notBelow trivial
  | finite s m e h =>
    obtain rfl : s = .positive := notBelow
    by_cases huge : 972 ≤ e
    · rw [Float.Model.unpack, packed_bits, if_pos huge]
      rfl
    · exact ofFinite rfl (show e ≤ 971 by omega)

theorem zero_unpacked : (Scalar.zero : Float).toModel.unpack = .zero .positive := by rfl

theorem one_unpacked :
    (Scalar.one : Float).toModel.unpack = .finite .positive (2 ^ 52) (-52) (by decide) := by rfl

theorem zero_finite : (Scalar.zero : Float).isFinite = true :=
  congrArg UnpackedFloat.isFinite zero_unpacked

theorem one_finite : (Scalar.one : Float).isFinite = true :=
  congrArg UnpackedFloat.isFinite one_unpacked

theorem zero_number : (Scalar.zero : Float).isNaN = false := finite_is_number zero_finite

theorem one_number : (Scalar.one : Float).isNaN = false := finite_is_number one_finite

theorem zero_le_of_not_below {x : Float} (notBelow : NotBelowZero x.toModel.unpack) :
    Scalar.zero ≤ x := by
  rw [double_le_iff, compareDoubles, zero_unpacked]
  cases kind : x.toModel.unpack with
  | notANumber => simp [kind, NotBelowZero] at notBelow
  | infinity s =>
    rw [kind] at notBelow
    obtain rfl : s = .positive := notBelow
    exact Or.inl rfl
  | zero s => exact Or.inr rfl
  | finite s m e h =>
    rw [kind] at notBelow
    obtain rfl : s = .positive := notBelow
    exact Or.inl rfl

theorem share_of_unpacked {x : Float} (atMost : AtMostOne x.toModel.unpack)
    (notBelow : NotBelowZero x.toModel.unpack) : Scalar.IsShare x := by
  refine ⟨zero_le_of_not_below notBelow, ?_⟩
  rw [double_le_iff, compareDoubles, one_unpacked]
  cases kind : x.toModel.unpack with
  | notANumber => simp [kind, NotBelowZero] at notBelow
  | infinity s => simp [kind, AtMostOne] at atMost
  | zero s => exact Or.inl rfl
  | finite s m e h =>
    rw [kind] at notBelow atMost
    obtain rfl : s = .positive := notBelow
    change some ((compare e (-52)).then (compare m (2 ^ 52))) = _ ∨
      some ((compare e (-52)).then (compare m (2 ^ 52))) = _
    rcases atMost with less | ⟨rfl, le⟩
    · rw [Int.compare_eq_lt.mpr less]
      exact Or.inl rfl
    · rcases Nat.lt_or_eq_of_le le with less | rfl
      · rw [Nat.compare_eq_lt.mpr less]
        exact Or.inl rfl
      · exact Or.inr rfl

theorem count_not_below (n : Nat) : NotBelowZero (Scalar.count n : Float).toModel.unpack := by
  rcases Nat.eq_zero_or_pos n with rfl | positive
  · rfl
  · have large := count_large positive
    have sign := count_sign positive
    cases kind : (Scalar.count n : Float).toModel.unpack <;>
      simp_all [Large, HasSign, NotBelowZero]

theorem count_finite {n : Nat} (positive : 0 < n) (small : n < 2 ^ 256) :
    ∃ m e h, (Scalar.count n : Float).toModel.unpack = .finite .positive m e h ∧
      m.log2 = 52 ∧ -52 ≤ e := by
  have large := count_large positive
  rw [count_nearest positive small] at large ⊢
  rcases nearest_cases positive with ⟨_, _, h, eq⟩ | ⟨_, h, eq⟩
  · exact ⟨_, _, h, eq, by rw [eq] at large; exact large⟩
  · exact ⟨_, _, h, eq, by rw [eq] at large; exact large⟩

theorem larger_one_unpacked {n : Nat} (positive : 0 < n) (small : n < 2 ^ 256) :
    (Scalar.larger Scalar.one (Scalar.count n) : Float).toModel.unpack =
      (Scalar.count n : Float).toModel.unpack := by
  unfold Scalar.larger
  split
  · rfl
  · rename_i notLess
    obtain ⟨m, e, h, eq, length, least⟩ := count_finite positive small
    have low : 2 ^ 52 ≤ m := length ▸ Nat.log2_self_le (Nat.ne_of_gt h)
    rw [double_lt_iff, compareDoubles, one_unpacked, eq] at notLess
    change ¬some ((compare (-52) e).then (compare (2 ^ 52) m)) = some .lt at notLess
    have exponent : e = -52 := by
      by_contra other
      rw [Int.compare_eq_lt.mpr (by omega)] at notLess
      exact notLess rfl
    subst exponent
    have mantissa : m = 2 ^ 52 := by
      by_contra other
      rw [Nat.compare_eq_lt.mpr (by omega)] at notLess
      exact notLess rfl
    subst mantissa
    rw [one_unpacked, eq]

def PositiveFinite : UnpackedFloat → Prop
  | .finite .positive _ _ _ => True
  | _ => False

instance : DecidablePred PositiveFinite
  | .finite .positive _ _ _ => isTrue trivial
  | .finite .negative _ _ _ | .zero _ | .infinity _ | .notANumber => isFalse id

theorem PositiveFinite.form {u : UnpackedFloat} (positive : PositiveFinite u) :
    ∃ m e h, u = .finite .positive m e h := by
  cases u with
  | notANumber => exact absurd positive id
  | infinity s => exact absurd positive id
  | zero s => exact absurd positive id
  | finite s m e h =>
    cases s with
    | negative => exact absurd positive id
    | positive => exact ⟨m, e, h, rfl⟩

theorem divided_not_below (part : Nat) {y : Float} (divisor : PositiveFinite y.toModel.unpack) :
    NotBelowZero (Scalar.count part / y).toModel.unpack := by
  obtain ⟨n, f, h, form⟩ := divisor.form
  have quotient : NotBelowZero (UnpackedFloat.div Format.binary64
      (Scalar.count part : Float).toModel.unpack y.toModel.unpack) := by
    rw [form]
    exact quotient_not_below (count_not_below part) h
  exact packed_not_below quotient

theorem quotient_share {part whole : Nat} {y : Float} (within : part ≤ whole) (some : 0 < whole)
    (small : whole < 2 ^ 256)
    (divisor : y.toModel.unpack = (Scalar.count whole : Float).toModel.unpack) :
    Scalar.IsShare (Scalar.count part / y) := by
  obtain ⟨n, f, h, eq, length, least⟩ := count_finite some small
  have atMost : AtMostOne (UnpackedFloat.div Format.binary64
      (Scalar.count part : Float).toModel.unpack y.toModel.unpack) := by
    rcases Nat.eq_zero_or_pos part with rfl | positive
    · rw [divisor, eq]
      exact trivial
    · rw [divisor]
      exact quotient_at_most_one (counts_in_order positive within small) (count_large positive)
        (count_large some)
  have notBelow : NotBelowZero (Scalar.count part / y).toModel.unpack :=
    divided_not_below part (by rw [divisor, eq]; trivial)
  exact share_of_unpacked (packed_at_most_one atMost) notBelow

theorem per_count_share {part whole : Nat} (within : part ≤ whole) (small : whole < 2 ^ 256) :
    Scalar.IsShare (Scalar.perCount part whole : Float) := by
  rcases Nat.eq_zero_or_pos whole with rfl | some
  · obtain rfl : part = 0 := by omega
    decide +kernel
  · exact quotient_share within some small (larger_one_unpacked some small)

theorem clamped_is_share {x : Float} (number : x.isNaN = false) :
    Scalar.IsShare (Scalar.clamp Scalar.zero Scalar.one x) := by
  simp only [Scalar.clamp]
  by_cases below : x < Scalar.zero
  · rw [if_pos below]
    decide +kernel
  · rw [if_neg below]
    split
    · decide +kernel
    · rename_i notMore
      exact ⟨double_le_of_not_lt number zero_number below,
        double_le_of_not_lt one_number number notMore⟩

theorem clamped_share {x : Float} (notBelow : NotBelowZero x.toModel.unpack) :
    Scalar.IsShare (Scalar.clamp Scalar.zero Scalar.one x) := by
  apply clamped_is_share
  change x.toModel.unpack.isNaN = false
  cases kind : x.toModel.unpack <;> simp_all [NotBelowZero, UnpackedFloat.isNaN]

/- The weighted sum of the style ratios. -/

theorem weighted_not_below {w x : Float} (weight : PositiveFinite w.toModel.unpack)
    (notBelow : NotBelowZero x.toModel.unpack) : NotBelowZero (w * x).toModel.unpack := by
  obtain ⟨m, e, h, form⟩ := weight.form
  have product : NotBelowZero (UnpackedFloat.mul Format.binary64 w.toModel.unpack
      x.toModel.unpack) := by
    rw [form]
    exact product_not_below h notBelow
  exact packed_not_below product

theorem added_not_below {x y : Float} (left : NotBelowZero x.toModel.unpack)
    (right : NotBelowZero y.toModel.unpack) : NotBelowZero (x + y).toModel.unpack :=
  packed_not_below (sum_not_below left right)

theorem ratio_not_below (part : Nat) {whole : Nat} (small : whole < 2 ^ 256) :
    NotBelowZero (Scalar.perCount part whole : Float).toModel.unpack := by
  refine divided_not_below part ?_
  rcases Nat.eq_zero_or_pos whole with rfl | some
  · decide +kernel
  · obtain ⟨n, f, h, eq, -⟩ := count_finite some small
    rw [larger_one_unpacked some small, eq]
    trivial

/-- With the documented weights. With others the sum need not be a number. -/
theorem overall_share {i : Analysis.StyleIssues} (nonblank : i.spacing.nonblankLines < 2 ^ 256)
    (indented : i.indentation.indentedLines < 2 ^ 256) (identifiers : i.uniqueIdentifiers < 2 ^ 256)
    (lines : i.codeLines < 2 ^ 256) : Scalar.IsShare (i.overall .default : Float) := by
  have spacing := weighted_not_below (w := Analysis.StyleWeights.default.spacing)
    (by decide +kernel) (ratio_not_below i.spacing.total nonblank)
  have indentation := weighted_not_below (w := Analysis.StyleWeights.default.indentation)
    (by decide +kernel) (ratio_not_below i.indentation.total indented)
  have naming := weighted_not_below (w := Analysis.StyleWeights.default.naming)
    (by decide +kernel) (ratio_not_below i.naming identifiers)
  have formatting := weighted_not_below (w := Analysis.StyleWeights.default.formatting)
    (by decide +kernel) (ratio_not_below i.formatting.total lines)
  exact clamped_share (added_not_below
    (added_not_below (added_not_below spacing indentation) naming) formatting)

end Authorship
