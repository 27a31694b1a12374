import Authorship.Proofs.DoubleSides

/-
What a double stands for, as an exact number. An infinity is given the first power of two beyond the
range, so that whatever is not NaN has its place in the order of the values, and doubles compare as
their values do.
-/
namespace Authorship

open Float.Model (UnpackedFloat Format)
open Float.Model.UnpackedFloat

variable {u v : UnpackedFloat} {s t : Sign} {m n : Nat} {e f : Int}

/-- The number of full length that comes next after the greatest double, for an infinity. -/
def inPlace : UnpackedFloat → UnpackedFloat
  | .infinity s => .finite s (2 ^ 52) 972 (by decide)
  | u => u

def finiteValue : UnpackedFloat → Rat
  | .finite s m e _ => s.apply m * 2 ^ e
  | _ => 0

def exactValue (u : UnpackedFloat) : Rat := finiteValue (inPlace u)

def valueOf (x : Float) : Rat := exactValue x.toModel.unpack

theorem value_positive (h : 0 < m) (e : Int) : (0 : Rat) < m * 2 ^ e :=
  mul_pos (Nat.cast_pos.mpr h) (zpow_pos two_pos e)

theorem shifted_value {g : Int} (le : g ≤ e) :
    ((m <<< (e - g).toNat : Nat) : Rat) * 2 ^ g = m * 2 ^ e := by
  have exponent : e = (e - g).toNat + g := by omega
  conv_rhs => rw [exponent, zpow_add₀ two_ne_zero, zpow_natCast, ← mul_assoc]
  rw [Nat.shiftLeft_eq, Nat.cast_mul, Nat.cast_pow, Nat.cast_ofNat]

theorem finite_value_positive (h : 0 < m) (e : Int) :
    finiteValue (.finite .positive m e h) = m * 2 ^ e := rfl

theorem finite_value_negative (h : 0 < m) (e : Int) :
    finiteValue (.finite .negative m e h) = -(m * 2 ^ e) := by
  simp [finiteValue, Sign.apply]

theorem finite_value_abs (u : UnpackedFloat) : finiteValue u.abs = |finiteValue u| := by
  cases u with
  | finite s m e h =>
    have positive := value_positive h e
    cases s with
    | positive => exact (abs_of_pos positive).symm
    | negative =>
      rw [finite_value_negative, abs_neg, abs_of_pos positive]
      rfl
  | _ => exact abs_zero.symm

theorem exact_value_abs (u : UnpackedFloat) : exactValue u.abs = |exactValue u| := by
  rw [exactValue, exactValue, ← finite_value_abs]
  cases u <;> rfl

theorem value_of_abs (x : Float) : valueOf x.abs = |valueOf x| := by
  rw [valueOf, valueOf, double_abs_unpacked, exact_value_abs]

theorem finite_value_neg (s : Sign) (h : 0 < m) (e : Int) :
    finiteValue (.finite (-s) m e h) = -finiteValue (.finite s m e h) := by
  cases s <;> simp [finiteValue, Sign.apply]

def Ordinary : UnpackedFloat → Prop
  | .zero _ => True
  | .finite s m e h => Rounded (.finite s m e h)
  | _ => False

theorem compare_positive (h : 0 < m) (h' : 0 < n) (left : Rounded (.finite s m e h))
    (right : Rounded (.finite s n f h')) :
    (compare e f).then (compare m n) = .lt ↔ (m : Rat) * 2 ^ e < n * 2 ^ f := by
  rw [compare_shifted left right, Nat.compare_eq_lt, ← shifted_value (Int.min_le_left e f),
    ← shifted_value (Int.min_le_right e f), mul_lt_mul_iff_left₀ (zpow_pos two_pos _),
    Nat.cast_lt]

theorem ordinary_lt_iff (left : Ordinary u) (right : Ordinary v) :
    u.compare v = some .lt ↔ finiteValue u < finiteValue v := by
  have nothing (s : Sign) : finiteValue (.zero s) = 0 := rfl
  have after : some Ordering.gt ≠ some .lt := by decide
  cases u with
  | notANumber => exact absurd left id
  | infinity s => exact absurd left id
  | zero s =>
    cases v with
    | notANumber => exact absurd right id
    | infinity t => exact absurd right id
    | zero t => simp [UnpackedFloat.compare, nothing]
    | finite t n f h' =>
      have positive := value_positive h' f
      rw [nothing]
      cases t with
      | positive => exact iff_of_true rfl positive
      | negative =>
        rw [finite_value_negative]
        exact iff_of_false after (by simpa using positive.le)
  | finite s m e h =>
    have positive := value_positive h e
    cases v with
    | notANumber => exact absurd right id
    | infinity t => exact absurd right id
    | zero t =>
      rw [nothing]
      cases s with
      | positive => exact iff_of_false after positive.le.not_gt
      | negative =>
        rw [finite_value_negative]
        exact iff_of_true rfl (by simpa using positive)
    | finite t n f h' =>
      have positive' := value_positive h' f
      cases s with
      | positive =>
        cases t with
        | positive =>
          exact Option.some_inj.trans (compare_positive (s := .positive) h h' left right)
        | negative =>
          rw [finite_value_negative, finite_value_positive]
          exact iff_of_false after ((neg_nonpos.mpr positive'.le).trans positive.le).not_gt
      | negative =>
        rw [finite_value_negative]
        cases t with
        | positive => exact iff_of_true rfl ((neg_neg_of_pos positive).trans positive')
        | negative =>
          have swapped : ((compare e f).then (compare m n)).swap =
              (compare f e).then (compare n m) := by
            rw [Ordering.swap_then, ← Std.OrientedOrd.eq_swap, ← Std.OrientedOrd.eq_swap]
          refine Option.some_inj.trans ?_
          rw [swapped, compare_positive (s := .negative) h' h right left, finite_value_negative]
          exact neg_lt_neg_iff.symm

structure InLine (u : UnpackedFloat) : Prop where
  number : u.isNaN = false
  rounded : Rounded u
  inRange : ∀ {s m e h}, u = .finite s m e h → e ≤ 971

theorem double_in_line {x : Float} (number : x.isNaN = false) : InLine x.toModel.unpack := by
  refine ⟨number, double_rounded x, ?_⟩
  intro s m e h kind
  have finite : x.toModel.unpack.isFinite = true := by rw [kind]; rfl
  have double : OfDouble x.toModel.unpack := unpacked_of_double finite
  rw [kind] at double
  exact double.2

theorem ordinary_in_place (inLine : InLine u) : Ordinary (inPlace u) := by
  cases u with
  | notANumber => exact absurd inLine.number nofun
  | zero s => trivial
  | infinity s => exact ⟨by decide, Or.inl (by decide)⟩
  | finite s m e h => exact inLine.rounded

theorem compare_in_place (left : InLine u) (right : InLine v) :
    u.compare v = (inPlace u).compare (inPlace v) := by
  cases u with
  | notANumber => exact absurd left.number nofun
  | zero s =>
    cases v with
    | infinity t => cases t <;> rfl
    | _ => rfl
  | infinity s =>
    cases v with
    | notANumber => exact absurd right.number nofun
    | zero t => cases s <;> rfl
    | infinity t => cases s <;> cases t <;> decide
    | finite t n f h =>
      have less : compare (972 : Int) f = .gt := Int.compare_eq_gt.mpr (by
        have := right.inRange rfl
        omega)
      cases s <;> cases t <;> simp [UnpackedFloat.compare, inPlace, less]
  | finite s m e h =>
    cases v with
    | infinity t =>
      have less : compare e (972 : Int) = .lt := Int.compare_eq_lt.mpr (by
        have := left.inRange rfl
        omega)
      cases s <;> cases t <;> simp [UnpackedFloat.compare, inPlace, less]
    | _ => rfl

variable {x y : Float}

theorem double_lt_iff_value (number : x.isNaN = false) (number' : y.isNaN = false) :
    x < y ↔ valueOf x < valueOf y := by
  have left := double_in_line number
  have right := double_in_line number'
  rw [double_lt_iff, compareDoubles, compare_in_place left right,
    ordinary_lt_iff (ordinary_in_place left) (ordinary_in_place right)]
  rfl

theorem double_le_iff_value (number : x.isNaN = false) (number' : y.isNaN = false) :
    x ≤ y ↔ valueOf x ≤ valueOf y := by
  rw [← not_lt, ← double_lt_iff_value number' number]
  exact ⟨fun atMost less => not_le_of_double_lt less atMost,
    double_le_of_not_lt number' number⟩

theorem double_beq_iff_value (number : x.isNaN = false) (number' : y.isNaN = false) :
    (x == y) = true ↔ valueOf x = valueOf y := by
  have less := double_lt_iff_value number number'
  have atMost := double_le_iff_value number number'
  rw [double_lt_iff] at less
  rw [double_le_iff, less] at atMost
  rw [double_beq_iff]
  constructor
  · intro same
    refine le_antisymm (atMost.mp (Or.inr same)) (not_lt.mp ?_)
    rw [← less, same]
    nofun
  · intro same
    rcases atMost.mpr same.le with before | equal
    · exact absurd same before.ne
    · exact equal

end Authorship
