import Authorship.Scalar
import Mathlib

/-
How doubles compare. NaN compares with nothing, and all other doubles, the infinities among them,
stand in one line.
-/
namespace Authorship

open Float.Model (UnpackedFloat)

theorem compare_swapped (a b : UnpackedFloat) :
    b.compare a = (a.compare b).map Ordering.swap := by
  have mantissas (m n : Nat) : compare n m = (compare m n).swap := Std.OrientedOrd.eq_swap
  have exponents (e f : Int) : compare f e = (compare e f).swap := Std.OrientedOrd.eq_swap
  cases a with
  | notANumber => cases b <;> rfl
  | infinity s =>
    cases b with
    | infinity t => cases s <;> cases t <;> rfl
    | _ => cases s <;> rfl
  | zero s =>
    cases b with
    | infinity t => cases t <;> rfl
    | finite t n f h => cases t <;> rfl
    | _ => rfl
  | finite s m e h =>
    cases b with
    | infinity t => cases t <;> rfl
    | finite t n f h' =>
      cases s <;> cases t <;>
        simp [UnpackedFloat.compare, Ordering.swap_then, mantissas m n, exponents e f]
    | _ => cases s <;> rfl

theorem compare_defined (a b : UnpackedFloat) :
    (a.compare b).isSome = (!a.isNaN && !b.isNaN) := by
  fun_cases UnpackedFloat.compare a b <;> simp [UnpackedFloat.isNaN]

def compareDoubles (x y : Float) : Option Ordering := x.toModel.unpack.compare y.toModel.unpack

theorem double_lt_iff (x y : Float) : x < y ↔ compareDoubles x y = some .lt :=
  (decide_eq_true_iff (p := x.toModel < y.toModel)).trans beq_iff_eq

theorem double_le_iff (x y : Float) :
    x ≤ y ↔ compareDoubles x y = some .lt ∨ compareDoubles x y = some .eq := by
  refine (decide_eq_true_iff (p := x.toModel ≤ y.toModel)).trans ?_
  change (compareDoubles x y).any (·.isLE) = true ↔ _
  cases compareDoubles x y with
  | none => simp
  | some o => cases o <;> simp

theorem double_lt_asymm {x y : Float} (less : x < y) : ¬ y < x := by
  intro greater
  rw [double_lt_iff] at less greater
  rw [compareDoubles, compare_swapped, ← compareDoubles, less] at greater
  exact absurd greater (by decide)

theorem not_le_of_double_lt {x y : Float} (less : x < y) : ¬ y ≤ x := by
  intro atMost
  rw [double_lt_iff] at less
  rw [double_le_iff, compareDoubles, compare_swapped, ← compareDoubles, less] at atMost
  exact absurd atMost (by decide)

theorem numbers_of_double_lt {x y : Float} (less : x < y) : (x.isNaN || y.isNaN) = false := by
  have defined : (compareDoubles x y).isSome = true := by
    rw [(double_lt_iff x y).mp less]
    rfl
  rw [compareDoubles, compare_defined, ← Bool.not_or, Bool.not_eq_true'] at defined
  exact defined

theorem greater_is_number {x y : Float} (less : x < y) : y.isNaN = false :=
  (Bool.or_eq_false_iff.mp (numbers_of_double_lt less)).2

theorem double_le_of_not_lt {x y : Float} (isNumber : x.isNaN = false) (isNumber' : y.isNaN = false)
    (notLess : ¬ x < y) : y ≤ x := by
  have defined : (compareDoubles x y).isSome := by
    rw [compareDoubles, compare_defined]
    exact Bool.and_eq_true_iff.mpr ⟨congrArg (!·) isNumber, congrArg (!·) isNumber'⟩
  obtain ⟨o, h⟩ := Option.isSome_iff_exists.mp defined
  have back : compareDoubles y x = some o.swap := by
    rw [compareDoubles, compare_swapped, ← compareDoubles, h]
    rfl
  rw [double_lt_iff, h] at notLess
  rw [double_le_iff, back]
  cases o <;> simp_all

theorem double_le_refl {x : Float} (isNumber : x.isNaN = false) : x ≤ x := by
  by_cases less : x < x
  · exact (double_le_iff x x).mpr (Or.inl ((double_lt_iff x x).mp less))
  · exact double_le_of_not_lt isNumber isNumber less

theorem finite_is_number {x : Float} (finite : x.isFinite = true) : x.isNaN = false := by
  have h : x.toModel.unpack.isFinite = true := finite
  change x.toModel.unpack.isNaN = false
  cases kind : x.toModel.unpack <;> simp_all [UnpackedFloat.isFinite, UnpackedFloat.isNaN]

end Authorship
