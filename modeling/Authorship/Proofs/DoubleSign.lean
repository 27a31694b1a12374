import Authorship.Proofs.DoubleOrder
import Authorship.Proofs.DoubleRange

/-
The sign of a double. Rounding and packing keep it, so that a count of things is never below zero,
and a count of at least one is above it.
-/
namespace Authorship

open Float.Model (UnpackedFloat Format)
open Float.Model.UnpackedFloat

def HasSign (s : Sign) : UnpackedFloat → Prop
  | .notANumber => True
  | .infinity t | .zero t | .finite t _ _ _ => t = s

theorem rounded_sign (s : Sign) (m : Nat) (e : Int) (accuracy : Accuracy) :
    HasSign s (roundWithAccuracy Format.binary64 s m e accuracy) := by
  rw [rounded_result s m e accuracy rfl rfl]
  split <;> rfl

theorem unpacked_sign (b : BitVec 64) :
    HasSign (Sign.ofBitVec (@unpackSign Format.binary64 b))
      (UnpackedFloat.unpack Format.binary64 b) := by
  unfold UnpackedFloat.unpack
  by_cases special : @unpackExponent Format.binary64 b = -1#_
  · simp only [special, ↓reduceIte]
    split
    · rfl
    · trivial
  · simp only [special, ↓reduceIte]
    split
    · split <;> rfl
    · rfl

theorem components_sign (s : Sign) (exponent : BitVec 11) (mantissa : BitVec 52) :
    HasSign s (UnpackedFloat.unpack Format.binary64
      (packComponents Format.binary64 s exponent mantissa)) := by
  have sign := unpacked_sign (packComponents Format.binary64 s exponent mantissa)
  rwa [unpackSign_packComponents, Sign.ofBitVec_toBitVec] at sign

theorem packed_sign {s : Sign} {u : UnpackedFloat} (sign : HasSign s u) :
    HasSign s (Float.Model.pack u).unpack := by
  cases u with
  | notANumber =>
    have same : (Float.Model.pack .notANumber).unpack = .notANumber := by rfl
    rw [same]
    trivial
  | infinity t =>
    obtain rfl : t = s := sign
    exact components_sign t _ _
  | zero t =>
    obtain rfl : t = s := sign
    exact components_sign t _ _
  | finite t m e h =>
    obtain rfl : t = s := sign
    rw [Float.Model.unpack, packed_bits]
    split
    · exact components_sign t _ _
    · split <;> exact components_sign t _ _

theorem product_sign {s t : Sign} {u v : UnpackedFloat} (left : HasSign s u)
    (right : HasSign t v) : HasSign (s * t) (UnpackedFloat.mul Format.binary64 u v) := by
  cases u with
  | notANumber => trivial
  | infinity s' =>
    obtain rfl : s' = s := left
    cases v with
    | notANumber => trivial
    | infinity t' => exact congrArg (s' * ·) right
    | zero t' => trivial
    | finite t' n f h => exact congrArg (s' * ·) right
  | zero s' =>
    obtain rfl : s' = s := left
    cases v with
    | notANumber => trivial
    | infinity t' => trivial
    | zero t' => exact congrArg (s' * ·) right
    | finite t' n f h => exact congrArg (s' * ·) right
  | finite s' m e h =>
    obtain rfl : s' = s := left
    cases v with
    | notANumber => trivial
    | infinity t' => exact congrArg (s' * ·) right
    | zero t' => exact congrArg (s' * ·) right
    | finite t' n f h' =>
      obtain rfl : t' = t := right
      exact rounded_sign _ _ _ _

theorem whole_number_sign {n : Nat} (positive : 0 < n) :
    HasSign .positive (UnpackedFloat.ofNat Format.binary64 n) := by
  have order : compare (n : Int) 0 = .gt := Int.compare_eq_gt.mpr (by omega)
  simp only [UnpackedFloat.ofNat, UnpackedFloat.ofInt, UnpackedFloat.normalize, order,
    UnpackedFloat.round, UnpackedFloat.decreaseExponent]
  exact rounded_sign _ _ _ _

theorem scientific_sign {n : Nat} (positive : 0 < n) :
    HasSign .positive (UnpackedFloat.ofScientific Format.binary64 n 0) := by
  have notZero : n ≠ 0 := Nat.ne_of_gt positive
  have notHuge : ¬ (0 : Int) > 2 ^ 11 := by decide
  have notTiny : ¬ (0 : Int) < -((2 ^ 11 : Int) + n.log2) := by omega
  simp only [UnpackedFloat.ofScientific, notZero, notHuge, notTiny, ↓reduceDIte, ↓reduceIte,
    Int.le_refl, UnpackedFloat.mul]
  exact rounded_sign _ _ _ _

theorem count_sign {n : Nat} (positive : 0 < n) :
    HasSign .positive (Scalar.count n : Float).toModel.unpack := by
  change HasSign .positive (Float.ofScientific n false 0).toModel.unpack
  unfold Float.ofScientific
  split
  · rename_i small
    have whole : HasSign .positive (Float.Model.ofUInt64 n.toUInt64).unpack := by
      refine packed_sign ?_
      rw [ofUInt64, UInt64.toNat_ofNat', Nat.mod_eq_of_lt (by omega)]
      exact whole_number_sign positive
    have one : HasSign .positive (Float.ofBits 0x3FF0000000000000).toModel.unpack := by
      exact components_sign .positive _ _
    exact packed_sign (product_sign whole one)
  · exact packed_sign (scientific_sign positive)

theorem count_positive {n : Nat} (positive : 0 < n) : (Scalar.zero : Float) < Scalar.count n := by
  have large := count_large positive
  have sign := count_sign positive
  have nothing : (Scalar.zero : Float).toModel.unpack = .zero .positive := by rfl
  rw [double_lt_iff, compareDoubles, nothing]
  cases value : (Scalar.count n : Float).toModel.unpack with
  | notANumber => simp [value, Large] at large
  | zero s => simp [value, Large] at large
  | infinity s =>
    rw [value] at sign
    obtain rfl : s = .positive := sign
    rfl
  | finite s m e h =>
    rw [value] at sign
    obtain rfl : s = .positive := sign
    rfl

end Authorship
