import Authorship.Proofs.DoubleCounts

/-
The one form that a double has. Taking a number out of its bits gives a mantissa of full length or
the least exponent, every operation gives such a number again, and packing keeps it unless it is too
large.
-/
namespace Authorship

open Float.Model (UnpackedFloat Format totalExponent)
open Float.Model.UnpackedFloat

def Rounded : UnpackedFloat → Prop
  | .finite _ m e _ => -1074 ≤ e ∧ (m.log2 = 52 ∨ m.log2 < 52 ∧ e = -1074)
  | _ => True

theorem unpacked_rounded (b : BitVec 64) : Rounded (UnpackedFloat.unpack Format.binary64 b) := by
  have bias : Format.binary64.exponentBias = 1023 := by decide
  unfold UnpackedFloat.unpack
  by_cases special : @unpackExponent Format.binary64 b = -1#_
  · simp only [if_pos special]
    split <;> trivial
  simp only [if_neg special]
  split
  · split
    · trivial
    · rename_i small nonzero
      have short : (@unpackMantissa Format.binary64 b).toNat < 2 ^ (51 + 1) := BitVec.isLt _
      have length := log2_at_most short
      rw [Rounded, bias, small]
      exact ⟨by decide, Or.inr ⟨by omega, by decide⟩⟩
  · rename_i normal
    have positive : (@unpackExponent Format.binary64 b).toNat ≠ 0 :=
      fun same => normal (BitVec.eq_of_toNat_eq same)
    have high : (1#1 ++ @unpackMantissa Format.binary64 b).toNat < 2 ^ 53 := BitVec.isLt _
    have low : 2 ^ 52 ≤ (1#1 ++ @unpackMantissa Format.binary64 b).toNat := by
      rw [BitVec.toNat_append]
      exact Nat.left_le_or
    rw [Rounded, bias]
    exact ⟨by omega, Or.inl ((Nat.log2_eq_iff (by omega)).mpr ⟨low, high⟩)⟩

theorem double_rounded (x : Float) : Rounded x.toModel.unpack := unpacked_rounded _

theorem unpacked_subnormal (s : Sign) {m : Nat} (h : 0 < m) (length : m.log2 < 52) :
    (Float.Model.pack (.finite s m (-1074) h)).unpack = .finite s m (-1074) h := by
  have short : m < 2 ^ 52 := (Nat.log2_lt (Nat.ne_of_gt h)).mp length
  have mantissa : (BitVec.ofNat 52 m).toNat = m := by
    rw [BitVec.toNat_ofNat, Nat.mod_eq_of_lt short]
  have nonzero : BitVec.ofNat 52 m ≠ 0#52 := by
    rw [Ne, ← BitVec.toNat_inj, mantissa]
    exact Nat.ne_of_gt h
  have bias : Format.binary64.exponentBias = 1023 := by decide
  rw [Float.Model.unpack, packed_bits, if_neg (by decide), if_neg (Nat.ne_of_lt length)]
  simp only [UnpackedFloat.unpack, unpackExponent_packComponents, unpackMantissa_packComponents,
    unpackSign_packComponents, Sign.ofBitVec_toBitVec]
  rw [if_neg (by decide), if_pos trivial, dif_neg nonzero]
  simp only [mantissa, bias]
  rfl

theorem packed_overflow (s : Sign) {m : Nat} {e : Int} (h : 0 < m) (huge : 972 ≤ e) :
    (Float.Model.pack (.finite s m e h)).unpack = .infinity s := by
  rw [Float.Model.unpack, packed_bits, if_pos huge]
  cases s <;> rfl

/-- Packing keeps a number, or it takes a number for infinite that is beyond the greatest double. -/
theorem packed_cases {u : UnpackedFloat} (rounded : Rounded u) :
    (Float.Model.pack u).unpack = u ∨
      ∃ s m e h, u = .finite s m e h ∧ 972 ≤ e ∧ (Float.Model.pack u).unpack = .infinity s := by
  cases u with
  | notANumber => exact Or.inl rfl
  | infinity s => exact Or.inl (by cases s <;> rfl)
  | zero s => exact Or.inl (by cases s <;> rfl)
  | finite s m e h =>
    obtain ⟨least, length⟩ := rounded
    by_cases huge : 972 ≤ e
    · exact Or.inr ⟨s, m, e, h, rfl, huge, packed_overflow s h huge⟩
    · rcases length with full | ⟨short, rfl⟩
      · exact Or.inl (unpacked_normal s h full least (by omega))
      · exact Or.inl (unpacked_subnormal s h short)

theorem rounded_cases (s : Sign) {m : Nat} {e : Int} (accuracy : Accuracy)
    (fine : e ≤ roundedExponent m e) {r : Nat} (mantissa : roundedOnce m e accuracy = r) :
    (r = 0 ∧ roundWithAccuracy Format.binary64 s m e accuracy = .zero s) ∨
      (r < 2 ^ 53 ∧ ∃ h, roundWithAccuracy Format.binary64 s m e accuracy =
        .finite s r (roundedExponent m e) h) ∨
      (r = 2 ^ 53 ∧ ∃ h, roundWithAccuracy Format.binary64 s m e accuracy =
        .finite s (2 ^ 52) (roundedExponent m e + 1) h) := by
  have exponent : max e (roundedExponent m e) = roundedExponent m e := by omega
  have least := rounded_exponent_eq m e
  have bounds := rounded_once_bounds m e accuracy
  have below := shifted_below m e
  rw [rounded_result s m e accuracy mantissa exponent]
  rw [mantissa] at bounds
  generalize roundedExponent m e = f at *
  rcases Nat.lt_or_eq_of_le (show r ≤ 2 ^ 53 by omega) with short | rfl
  · have length : r.log2 ≤ 52 := log2_at_most short
    have stays : (roundedExponent r f - f).toNat = 0 ∧ max f (roundedExponent r f) = f := by
      rw [rounded_exponent_eq]
      omega
    simp only [stays.1, stays.2, Nat.pow_zero, Nat.div_one]
    by_cases zero : r = 0
    · exact Or.inl ⟨zero, dif_pos zero⟩
    · exact Or.inr (Or.inl ⟨short, Nat.pos_of_ne_zero zero, dif_neg zero⟩)
  · have carried : roundedExponent (2 ^ 53) f = f + 1 := by
      rw [rounded_exponent_eq, Nat.log2_two_pow]
      omega
    have one : (f + 1 - f).toNat = 1 ∧ max f (f + 1) = f + 1 := by omega
    refine Or.inr (Or.inr ⟨rfl, by decide, ?_⟩)
    simp only [carried, one.1, one.2]
    exact dif_neg (by decide)

theorem rounded_form (s : Sign) {m : Nat} {e : Int} (accuracy : Accuracy)
    (fine : e ≤ roundedExponent m e) :
    Rounded (roundWithAccuracy Format.binary64 s m e accuracy) := by
  have least := rounded_exponent_eq m e
  have bounds := rounded_once_bounds m e accuracy
  rcases rounded_cases s accuracy fine rfl with ⟨-, result⟩ | ⟨short, h, result⟩ | ⟨-, h, result⟩
  · rw [result]
    trivial
  · rw [result]
    refine ⟨by omega, ?_⟩
    have length := log2_at_most short
    by_cases small : roundedExponent m e = -1074
    · rw [small]
      omega
    · have low := full_quotient (by omega) fine
      exact Or.inl ((Nat.log2_eq_iff (by omega)).mpr ⟨low.trans bounds.1, short⟩)
  · rw [result]
    exact ⟨by omega, Or.inl (by decide)⟩

theorem round_eq (s : Sign) {m : Nat} (e : Int) (h : 0 < m) :
    ∃ k : Nat, e - k ≤ roundedExponent (m <<< k) (e - k) ∧
      UnpackedFloat.round Format.binary64 s m e =
        roundWithAccuracy Format.binary64 s (m <<< k) (e - k) .exact := by
  refine ⟨(e - roundedExponent m e).toNat, ?_, rfl⟩
  rw [rounded_exponent_eq, rounded_exponent_eq, log2_shifted _ (Nat.ne_of_gt h)]
  omega

theorem round_rounded (s : Sign) {m : Nat} (e : Int) (h : 0 < m) :
    Rounded (UnpackedFloat.round Format.binary64 s m e) := by
  obtain ⟨k, fine, eq⟩ := round_eq s e h
  rw [eq]
  exact rounded_form s .exact fine

theorem normalized_cases (z : Int) (e : Int) :
    (z = 0 ∧ UnpackedFloat.normalize Format.binary64 z e .positive = .zero .positive) ∨
      (z < 0 ∧ UnpackedFloat.normalize Format.binary64 z e .positive =
        UnpackedFloat.round Format.binary64 .negative z.natAbs e) ∨
      (0 < z ∧ UnpackedFloat.normalize Format.binary64 z e .positive =
        UnpackedFloat.round Format.binary64 .positive z.natAbs e) := by
  unfold UnpackedFloat.normalize
  rcases lt_trichotomy z 0 with negative | rfl | positive
  · have size : (-z).toNat = z.natAbs := by omega
    rw [Int.compare_eq_lt.mpr negative, size]
    exact Or.inr (Or.inl ⟨negative, rfl⟩)
  · exact Or.inl ⟨rfl, rfl⟩
  · have size : z.toNat = z.natAbs := by omega
    rw [Int.compare_eq_gt.mpr positive, size]
    exact Or.inr (Or.inr ⟨positive, rfl⟩)

theorem normalized_rounded (z : Int) (e : Int) :
    Rounded (UnpackedFloat.normalize Format.binary64 z e .positive) := by
  rcases normalized_cases z e with ⟨-, eq⟩ | ⟨negative, eq⟩ | ⟨positive, eq⟩
  · rw [eq]
    trivial
  · rw [eq]
    exact round_rounded _ _ (by omega)
  · rw [eq]
    exact round_rounded _ _ (by omega)

variable {u v : UnpackedFloat}

theorem sum_rounded (left : Rounded u) (right : Rounded v) :
    Rounded (UnpackedFloat.add Format.binary64 u v) := by
  cases u with
  | notANumber => trivial
  | infinity s =>
    cases v with
    | infinity t => cases s <;> cases t <;> trivial
    | _ => trivial
  | zero s =>
    cases v with
    | zero t => cases s <;> cases t <;> trivial
    | finite t n f h => exact right
    | _ => trivial
  | finite s m e h =>
    cases v with
    | zero t => exact left
    | finite t n f h' => exact normalized_rounded _ _
    | _ => trivial

theorem difference_rounded (left : Rounded u) (right : Rounded v) :
    Rounded (UnpackedFloat.sub Format.binary64 u v) := by
  cases u with
  | notANumber => trivial
  | infinity s =>
    cases v with
    | infinity t => cases s <;> cases t <;> trivial
    | _ => trivial
  | zero s =>
    cases v with
    | zero t => cases s <;> cases t <;> trivial
    | finite t n f h => exact right
    | _ => trivial
  | finite s m e h =>
    cases v with
    | zero t => exact left
    | finite t n f h' => exact normalized_rounded _ _
    | _ => trivial

theorem log2_product {m n : Nat} (h : 0 < m) (h' : 0 < n) :
    m.log2 + n.log2 ≤ (m * n).log2 ∧ (m * n).log2 ≤ m.log2 + n.log2 + 1 := by
  have nonzero : m * n ≠ 0 := Nat.ne_of_gt (Nat.mul_pos h h')
  constructor
  · rw [Nat.le_log2 nonzero, Nat.pow_add]
    exact Nat.mul_le_mul (Nat.log2_self_le (Nat.ne_of_gt h)) (Nat.log2_self_le (Nat.ne_of_gt h'))
  · apply log2_at_most
    have places : m.log2 + n.log2 + 1 + 1 = (m.log2 + 1) + (n.log2 + 1) := by omega
    rw [places, Nat.pow_add]
    exact Nat.mul_lt_mul'' Nat.lt_log2_self Nat.lt_log2_self

theorem product_fine {s t : Sign} {m n : Nat} {e f : Int} {h : 0 < m} {h' : 0 < n}
    (left : Rounded (.finite s m e h)) (right : Rounded (.finite t n f h')) :
    e + f ≤ roundedExponent (m * n) (e + f) := by
  have lengths := log2_product h h'
  obtain ⟨least, length⟩ := left
  obtain ⟨least', length'⟩ := right
  rw [rounded_exponent_eq]
  omega

theorem product_rounded (left : Rounded u) (right : Rounded v) :
    Rounded (UnpackedFloat.mul Format.binary64 u v) := by
  cases u with
  | finite s m e h =>
    cases v with
    | finite t n f h' => exact rounded_form _ _ (product_fine left right)
    | _ => trivial
  | _ => cases v <;> trivial

theorem log2_quotient {m n : Nat} (h' : 0 < n) (some : m / n ≠ 0) :
    m.log2 ≤ (m / n).log2 + n.log2 + 1 ∧ (m / n).log2 + n.log2 ≤ m.log2 := by
  have nonzero : m ≠ 0 := by
    rintro rfl
    exact some (Nat.zero_div n)
  constructor
  · apply log2_at_most
    have above : m < n * (m / n + 1) := Nat.lt_mul_div_succ m h'
    have quotient : m / n + 1 ≤ 2 ^ ((m / n).log2 + 1) := Nat.lt_log2_self
    have divisor : n < 2 ^ (n.log2 + 1) := Nat.lt_log2_self
    calc m < n * (m / n + 1) := above
      _ ≤ 2 ^ (n.log2 + 1) * 2 ^ ((m / n).log2 + 1) := Nat.mul_le_mul divisor.le quotient
      _ = 2 ^ ((m / n).log2 + n.log2 + 1 + 1) := by rw [← Nat.pow_add]; congr 1; omega
  · rw [Nat.le_log2 nonzero, Nat.pow_add]
    have parts : m / n * n ≤ m := Nat.div_mul_le_self m n
    exact (Nat.mul_le_mul (Nat.log2_self_le some) (Nat.log2_self_le (Nat.ne_of_gt h'))).trans parts

def quotientExponent (m : Nat) (e : Int) (n : Nat) (f : Int) : Int :=
  min (e - f) (max (m.log2 + e - n.log2 - f - 53) (-1074))

theorem div_core_eq (m : Nat) (e : Int) (n : Nat) (f : Int) :
    divCore Format.binary64 m e n f =
      (m <<< (e - f - quotientExponent m e n f).toNat / n, quotientExponent m e n f,
        accuracyOfFraction (m <<< (e - f - quotientExponent m e n f).toNat % n) n) := by
  have target : min (e - f) (Format.binary64.targetExponent
      (totalExponent m e - totalExponent n f)) = quotientExponent m e n f := by
    have bits : Format.binary64.mantissaBits = 53 := rfl
    have least : Format.binary64.minExponent = -1074 := by decide
    simp only [Format.targetExponent, totalExponent, bits, least, quotientExponent]
    omega
  simp only [divCore, target]

/-- Only an underflow leaves nothing of a quotient. -/
theorem quotient_exponent_of_zero {s t : Sign} {m n : Nat} {e f : Int} {h : 0 < m} {h' : 0 < n}
    (left : Rounded (.finite s m e h)) (right : Rounded (.finite t n f h'))
    (none : m <<< (e - f - quotientExponent m e n f).toNat / n = 0) :
    quotientExponent m e n f ≤ -1074 := by
  obtain ⟨least, length⟩ := left
  obtain ⟨least', length'⟩ := right
  by_contra large
  have shifted := log2_shifted (e - f - quotientExponent m e n f).toNat (Nat.ne_of_gt h)
  generalize dividend : m <<< (e - f - quotientExponent m e n f).toNat = d at none shifted
  have exponent : quotientExponent m e n f =
      min (e - f) (max (m.log2 + e - n.log2 - f - 53) (-1074)) := rfl
  have size : n.log2 + 1 ≤ d.log2 := by omega
  have nonzero : d ≠ 0 := by
    rintro rfl
    simp at size
  have above : 2 ^ (n.log2 + 1) ≤ d :=
    (Nat.pow_le_pow_right (by decide) size).trans (Nat.log2_self_le nonzero)
  have below : n < 2 ^ (n.log2 + 1) := Nat.lt_log2_self
  rw [Nat.div_eq_zero_iff] at none
  omega

theorem quotient_fine {s t : Sign} {m n : Nat} {e f : Int} {h : 0 < m} {h' : 0 < n}
    (left : Rounded (.finite s m e h)) (right : Rounded (.finite t n f h')) :
    let g := quotientExponent m e n f
    g ≤ roundedExponent (m <<< (e - f - g).toNat / n) g := by
  intro g
  have exponent : g = min (e - f) (max (m.log2 + e - n.log2 - f - 53) (-1074)) := rfl
  rw [rounded_exponent_eq]
  by_cases none : m <<< (e - f - g).toNat / n = 0
  · have tiny : g ≤ -1074 := quotient_exponent_of_zero left right none
    omega
  · obtain ⟨least, length⟩ := left
    obtain ⟨least', length'⟩ := right
    have lengths := log2_quotient h' none
    rw [log2_shifted _ (Nat.ne_of_gt h)] at lengths
    omega

theorem quotient_rounded (left : Rounded u) (right : Rounded v) :
    Rounded (UnpackedFloat.div Format.binary64 u v) := by
  cases u with
  | finite s m e h =>
    cases v with
    | finite t n f h' =>
      simp only [UnpackedFloat.div, div_core_eq]
      exact rounded_form _ _ (quotient_fine left right)
    | _ => trivial
  | _ => cases v <;> trivial

end Authorship
