import Authorship.Proofs.DoubleOrder
import Authorship.Proofs.DoubleRange

/-
What is the same when two doubles change places. Rounding and packing treat the two signs alike,
so that the sizes of `x - y` and `y - x` have the same bits.
-/
namespace Authorship

open Float.Model (UnpackedFloat Format)
open Float.Model.UnpackedFloat

/- The sign is all that may differ. -/
def SameSize (u v : UnpackedFloat) : Prop := u.abs = v.abs

theorem SameSize.refl (u : UnpackedFloat) : SameSize u u := rfl

theorem rounded_size (s t : Sign) (m : Nat) (e : Int) :
    SameSize (UnpackedFloat.round Format.binary64 s m e)
      (UnpackedFloat.round Format.binary64 t m e) := by
  simp only [SameSize, UnpackedFloat.round, rounded_result s _ _ .exact rfl rfl,
    rounded_result t _ _ .exact rfl rfl]
  split <;> rfl

theorem normalized_size (z : Int) (e : Int) :
    SameSize (UnpackedFloat.normalize Format.binary64 z e .positive)
      (UnpackedFloat.normalize Format.binary64 (-z) e .positive) := by
  unfold UnpackedFloat.normalize
  rcases lt_trichotomy z 0 with negative | rfl | positive
  · rw [Int.compare_eq_lt.mpr negative, Int.compare_eq_gt.mpr (by omega)]
    exact rounded_size .negative .positive _ e
  · exact SameSize.refl _
  · rw [Int.compare_eq_gt.mpr positive, Int.compare_eq_lt.mpr (by omega), Int.neg_neg]
    exact rounded_size .positive .negative _ e

theorem difference_size (u v : UnpackedFloat) :
    SameSize (UnpackedFloat.sub Format.binary64 u v) (UnpackedFloat.sub Format.binary64 v u) := by
  cases u with
  | notANumber => cases v <;> rfl
  | infinity s =>
    cases v with
    | infinity t => cases s <;> cases t <;> rfl
    | _ => rfl
  | zero s =>
    cases v with
    | zero t => cases s <;> cases t <;> rfl
    | _ => rfl
  | finite s m e h =>
    cases v with
    | finite t n f h' =>
      simp only [UnpackedFloat.sub, decreaseExponent]
      rw [min_comm f e, ← Int.neg_sub (s.apply _)]
      exact normalized_size _ _
    | _ => rfl

theorem components_size (s t : Sign) (exponent : BitVec 11) (mantissa : BitVec 52) :
    SameSize
      (UnpackedFloat.unpack Format.binary64 (packComponents Format.binary64 s exponent mantissa))
      (UnpackedFloat.unpack Format.binary64
        (packComponents Format.binary64 t exponent mantissa)) := by
  simp only [SameSize, UnpackedFloat.unpack, unpackExponent_packComponents,
    unpackMantissa_packComponents, unpackSign_packComponents, Sign.ofBitVec_toBitVec]
  by_cases special : exponent = -1#_
  · simp only [if_pos special]
    split <;> rfl
  · simp only [if_neg special]
    split
    · split <;> rfl
    · rfl

theorem packed_size (u : UnpackedFloat) :
    SameSize (Float.Model.pack u).unpack (Float.Model.pack u.abs).unpack := by
  cases u with
  | notANumber => exact SameSize.refl _
  | infinity s => exact components_size s .positive _ _
  | zero s => exact components_size s .positive _ _
  | finite s m e h =>
    rw [UnpackedFloat.abs, Float.Model.unpack, Float.Model.unpack, packed_bits, packed_bits]
    split
    · exact components_size s .positive _ _
    · split <;> exact components_size s .positive _ _

theorem distance_comm (x y : Float) : (x - y).abs = (y - x).abs := by
  have sizes := difference_size x.toModel.unpack y.toModel.unpack
  have packed (u v : UnpackedFloat) (same : SameSize u v) :
      SameSize (Float.Model.pack u).unpack (Float.Model.pack v).unpack := by
    have left := packed_size u
    rw [same] at left
    exact left.trans (packed_size v).symm
  have bits := packed _ _ sizes
  exact congrArg (fun u => Float.ofModel (Float.Model.pack u)) bits

theorem unpacked_sum_comm (u v : UnpackedFloat) :
    UnpackedFloat.add Format.binary64 u v = UnpackedFloat.add Format.binary64 v u := by
  cases u with
  | notANumber => cases v <;> rfl
  | infinity s =>
    cases v with
    | infinity t => cases s <;> cases t <;> rfl
    | _ => rfl
  | zero s =>
    cases v with
    | zero t => cases s <;> cases t <;> rfl
    | _ => rfl
  | finite s m e h =>
    cases v with
    | finite t n f h' =>
      simp only [UnpackedFloat.add, decreaseExponent]
      rw [min_comm f e, Int.add_comm]
    | _ => rfl

theorem double_add_comm (x y : Float) : x + y = y + x :=
  congrArg (fun u => Float.ofModel (Float.Model.pack u))
    (unpacked_sum_comm x.toModel.unpack y.toModel.unpack)

theorem double_beq_iff (x y : Float) : (x == y) = true ↔ compareDoubles x y = some .eq := by
  change (compareDoubles x y == some .eq) = true ↔ _
  exact beq_iff_eq

theorem double_beq_comm (x y : Float) : (x == y) = (y == x) := by
  rw [Bool.eq_iff_iff, double_beq_iff, double_beq_iff, compareDoubles, compareDoubles,
    compare_swapped y.toModel.unpack]
  cases y.toModel.unpack.compare x.toModel.unpack with
  | none => simp
  | some o => cases o <;> simp

theorem double_lt_iff_not_gt {x y : Float} (isNumber : x.isNaN = false)
    (isNumber' : y.isNaN = false) (differ : (x == y) = false) : x < y ↔ ¬ y < x := by
  constructor
  · exact double_lt_asymm
  · intro notGreater
    have atMost := double_le_of_not_lt isNumber' isNumber notGreater
    rcases (double_le_iff x y).mp atMost with less | equal
    · exact (double_lt_iff x y).mpr less
    · rw [(double_beq_iff x y).mpr equal] at differ
      contradiction

end Authorship
