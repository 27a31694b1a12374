import Authorship.Proofs.DoubleForms

/-
The size of a double, between two powers of two. The size of a result follows from the sizes of what
it is computed from, so that a computation with small numbers stays finite.
-/
namespace Authorship

open Float.Model (UnpackedFloat Format)
open Float.Model.UnpackedFloat

def SizeBelow (k : Int) : UnpackedFloat → Prop
  | .zero _ => True
  | .finite _ m e _ => m.log2 + e < k
  | _ => False

def SizeFrom (k : Int) : UnpackedFloat → Prop
  | .infinity _ => True
  | .finite _ m e _ => k ≤ m.log2 + e
  | _ => False

instance (k : Int) : DecidablePred (SizeBelow k)
  | .zero _ => isTrue trivial
  | .finite _ m e _ => inferInstanceAs (Decidable (m.log2 + e < k))
  | .infinity _ | .notANumber => isFalse id

instance (k : Int) : DecidablePred (SizeFrom k)
  | .infinity _ => isTrue trivial
  | .finite _ m e _ => inferInstanceAs (Decidable (k ≤ m.log2 + e))
  | .zero _ | .notANumber => isFalse id

variable {u v : UnpackedFloat} {j k : Int} {s : Sign} {m : Nat} {e : Int}

theorem SizeBelow.mono (below : SizeBelow j u) (le : j ≤ k) : SizeBelow k u := by
  cases u with
  | finite s m e h => exact Int.lt_of_lt_of_le below le
  | _ => exact below

theorem SizeBelow.finite (below : SizeBelow k u) : u.isFinite = true := by
  cases u with
  | notANumber => exact absurd below id
  | infinity s => exact absurd below id
  | _ => rfl

theorem SizeFrom.number (size : SizeFrom k u) : u.isNaN = false := by
  cases u with
  | notANumber => exact absurd size id
  | _ => rfl

theorem size_of_not_below (number : u.isNaN = false) (notBelow : ¬ SizeBelow k u) :
    SizeFrom k u := by
  cases u with
  | notANumber => exact absurd number.symm Bool.false_ne_true
  | zero s => exact absurd trivial notBelow
  | infinity s => trivial
  | finite s m e h => exact not_lt.mp notBelow

theorem rounded_below {accuracy : Accuracy} (fine : e ≤ roundedExponent m e) (least : -1074 ≤ k)
    (below : m.log2 + e < k) :
    SizeBelow (k + 1) (roundWithAccuracy Format.binary64 s m e accuracy) := by
  have exponent := rounded_exponent_eq m e
  have bounds := rounded_once_bounds m e accuracy
  generalize places : (roundedExponent m e - e).toNat = p at bounds
  have quotient : m / 2 ^ p < 2 ^ (m.log2 + 1 - p) := by
    rw [Nat.div_lt_iff_lt_mul (Nat.two_pow_pos _), ← Nat.pow_add]
    exact Nat.lt_of_lt_of_le Nat.lt_log2_self (Nat.pow_le_pow_right (by decide) (by omega))
  have size : roundedOnce m e accuracy ≤ 2 ^ (m.log2 + 1 - p) := by omega
  rcases rounded_cases s accuracy fine rfl with ⟨-, result⟩ | ⟨short, h, result⟩ | ⟨full, h, result⟩
  · rw [result]
    trivial
  · have length : (roundedOnce m e accuracy).log2 ≤ m.log2 + 1 - p :=
      log2_at_most (Nat.lt_of_le_of_lt size (Nat.pow_lt_pow_right (by decide) (by omega)))
    rw [result, SizeBelow]
    omega
  · rw [full, Nat.pow_le_pow_iff_right (by decide)] at size
    rw [result, SizeBelow, Nat.log2_two_pow]
    omega

theorem rounded_from {accuracy : Accuracy} (fine : e ≤ roundedExponent m e) (h : 0 < m)
    (least : -1074 ≤ k) (size : k ≤ m.log2 + e) :
    SizeFrom k (roundWithAccuracy Format.binary64 s m e accuracy) := by
  have exponent := rounded_exponent_eq m e
  have bounds := rounded_once_bounds m e accuracy
  have short := shifted_below m e
  generalize places : (roundedExponent m e - e).toNat = p at bounds short
  have fits : p ≤ m.log2 := by omega
  have quotient : 2 ^ (m.log2 - p) ≤ m / 2 ^ p := by
    rw [Nat.le_div_iff_mul_le (Nat.two_pow_pos _), ← Nat.pow_add, Nat.sub_add_cancel fits]
    exact Nat.log2_self_le (Nat.ne_of_gt h)
  have positive : 0 < 2 ^ (m.log2 - p) := Nat.two_pow_pos _
  rcases rounded_cases s accuracy fine rfl with ⟨zero, -⟩ | ⟨-, h', result⟩ | ⟨-, h', result⟩
  · omega
  · have length : m.log2 - p ≤ (roundedOnce m e accuracy).log2 :=
      (Nat.le_log2 (Nat.ne_of_gt h')).mpr (quotient.trans bounds.1)
    rw [result, SizeFrom]
    omega
  · have length : m.log2 - p < 53 :=
      (Nat.pow_lt_pow_iff_right (by decide)).mp (Nat.lt_of_le_of_lt quotient short)
    rw [result, SizeFrom, Nat.log2_two_pow]
    omega

theorem round_below (h : 0 < m) (least : -1074 ≤ k) (below : m.log2 + e < k) :
    SizeBelow (k + 1) (UnpackedFloat.round Format.binary64 s m e) := by
  obtain ⟨places, fine, eq⟩ := round_eq s e h
  rw [eq]
  refine rounded_below fine least ?_
  rw [log2_shifted _ (Nat.ne_of_gt h)]
  omega

theorem round_from (h : 0 < m) (least : -1074 ≤ k) (size : k ≤ m.log2 + e) :
    SizeFrom k (UnpackedFloat.round Format.binary64 s m e) := by
  obtain ⟨places, fine, eq⟩ := round_eq s e h
  have length := log2_shifted places (Nat.ne_of_gt h)
  rw [eq]
  refine rounded_from fine ?_ least (by omega)
  rw [Nat.shiftLeft_eq]
  exact Nat.mul_pos h (Nat.two_pow_pos places)

theorem packed_below (rounded : Rounded u) (most : k ≤ 1024) (below : SizeBelow k u) :
    SizeBelow k (Float.Model.pack u).unpack := by
  rcases packed_cases rounded with same | ⟨s, m, e, h, rfl, huge, -⟩
  · rwa [same]
  · have size : m.log2 + e < k := below
    obtain ⟨-, length⟩ := rounded
    omega

theorem packed_from (rounded : Rounded u) (size : SizeFrom k u) :
    SizeFrom k (Float.Model.pack u).unpack := by
  rcases packed_cases rounded with same | ⟨s, m, e, h, rfl, huge, eq⟩
  · rwa [same]
  · rw [eq]
    trivial

theorem product_below (left : Rounded u) (right : Rounded v) (below : SizeBelow j u)
    (below' : SizeBelow k v) (least : -1074 ≤ j + k) :
    SizeBelow (j + k + 1) (UnpackedFloat.mul Format.binary64 u v) := by
  cases u with
  | notANumber => exact absurd below id
  | infinity s => exact absurd below id
  | zero s =>
    cases v with
    | notANumber => exact absurd below' id
    | infinity t => exact absurd below' id
    | _ => trivial
  | finite s m e h =>
    cases v with
    | notANumber => exact absurd below' id
    | infinity t => exact absurd below' id
    | zero t => trivial
    | finite t n f h' =>
      have size : m.log2 + e < j := below
      have size' : n.log2 + f < k := below'
      have lengths := log2_product h h'
      exact rounded_below (product_fine left right) least (by omega)

theorem quotient_below (left : Rounded u) (right : Rounded v) (below : SizeBelow j u)
    (size : SizeFrom k v) (least : -1074 < j - k) :
    SizeBelow (j - k + 1) (UnpackedFloat.div Format.binary64 u v) := by
  cases v with
  | notANumber => exact absurd size id
  | zero t => exact absurd size id
  | infinity t =>
    cases u with
    | notANumber => exact absurd below id
    | infinity s => exact absurd below id
    | _ => trivial
  | finite t n f h' =>
    cases u with
    | notANumber => exact absurd below id
    | infinity s => exact absurd below id
    | zero s => trivial
    | finite s m e h =>
      have above : k ≤ n.log2 + f := size
      have under : m.log2 + e < j := below
      simp only [UnpackedFloat.div, div_core_eq]
      refine rounded_below (quotient_fine left right) least.le ?_
      by_cases some : m <<< (e - f - quotientExponent m e n f).toNat / n = 0
      · have tiny := quotient_exponent_of_zero left right some
        rw [some, Nat.log2_zero]
        omega
      · have lengths := log2_quotient h' some
        rw [log2_shifted _ (Nat.ne_of_gt h)] at lengths
        have fits : quotientExponent m e n f ≤ e - f := Int.min_le_left _ _
        omega

/-- A number between the difference and the sum of two sizes, as sums and differences are before
they are rounded. -/
def Between (a b : Nat) (z : Int) : Prop := a ≤ z.natAbs + b ∧ z.natAbs ≤ a + b

theorem signed_sum_between (s t : Sign) (a b : Nat) : Between a b (s.apply a + t.apply b) := by
  rw [Between]
  cases s <;> cases t <;> simp only [Sign.apply] <;> omega

theorem signed_difference_between (s t : Sign) (a b : Nat) :
    Between a b (s.apply a - t.apply b) := by
  rw [Between]
  cases s <;> cases t <;> simp only [Sign.apply] <;> omega

theorem shifted_size_below (below : m.log2 + e < k) {g : Int} (le : g ≤ e) :
    m <<< (e - g).toNat < 2 ^ (k - g).toNat := by
  rw [Nat.shiftLeft_eq]
  calc m * 2 ^ (e - g).toNat < 2 ^ (m.log2 + 1) * 2 ^ (e - g).toNat :=
        Nat.mul_lt_mul_of_pos_right Nat.lt_log2_self (Nat.two_pow_pos _)
    _ = 2 ^ (m.log2 + 1 + (e - g).toNat) := (Nat.pow_add _ _ _).symm
    _ ≤ 2 ^ (k - g).toNat := Nat.pow_le_pow_right (by decide) (by omega)

theorem shifted_size_from (h : 0 < m) (size : k ≤ m.log2 + e) {g : Int} (le : g ≤ e) :
    2 ^ (k - g).toNat ≤ m <<< (e - g).toNat := by
  rw [Nat.shiftLeft_eq]
  calc 2 ^ (k - g).toNat ≤ 2 ^ (m.log2 + (e - g).toNat) :=
        Nat.pow_le_pow_right (by decide) (by omega)
    _ = 2 ^ m.log2 * 2 ^ (e - g).toNat := Nat.pow_add _ _ _
    _ ≤ m * 2 ^ (e - g).toNat := Nat.mul_le_mul_right _ (Nat.log2_self_le (Nat.ne_of_gt h))

theorem normalized_below {n : Nat} {f : Int} {z : Int} (least : -1075 ≤ k)
    (below : m.log2 + e < k) (below' : n.log2 + f < k)
    (between : Between (m <<< (e - min e f).toNat) (n <<< (f - min e f).toNat) z) :
    SizeBelow (k + 2) (UnpackedFloat.normalize Format.binary64 z (min e f) .positive) := by
  have left := shifted_size_below below (Int.min_le_left e f)
  have right := shifted_size_below below' (Int.min_le_right e f)
  have length (some : z ≠ 0) : z.natAbs.log2 + min e f < k + 1 := by
    have size : z.natAbs < 2 ^ ((k - min e f).toNat + 1) := by
      rw [Nat.pow_succ]
      have := between.2
      omega
    have := log2_at_most size
    omega
  rcases normalized_cases z (min e f) with ⟨-, eq⟩ | ⟨negative, eq⟩ | ⟨positive, eq⟩
  · rw [eq]
    trivial
  · rw [eq]
    exact (round_below (by omega) (by omega) (length (by omega))).mono (by omega)
  · rw [eq]
    exact (round_below (by omega) (by omega) (length (by omega))).mono (by omega)

theorem sum_below (least : -1075 ≤ k) (below : SizeBelow k u) (below' : SizeBelow k v) :
    SizeBelow (k + 2) (UnpackedFloat.add Format.binary64 u v) := by
  cases u with
  | notANumber => exact absurd below id
  | infinity s => exact absurd below id
  | zero s =>
    cases v with
    | zero t => cases s <;> cases t <;> trivial
    | _ => exact below'.mono (by omega)
  | finite s m e h =>
    cases v with
    | notANumber => exact absurd below' id
    | infinity t => exact absurd below' id
    | zero t => exact below.mono (by omega)
    | finite t n f h' =>
      exact normalized_below least below below' (signed_sum_between s t _ _)

theorem difference_below (least : -1075 ≤ k) (below : SizeBelow k u) (below' : SizeBelow k v) :
    SizeBelow (k + 2) (UnpackedFloat.sub Format.binary64 u v) := by
  cases u with
  | notANumber => exact absurd below id
  | infinity s => exact absurd below id
  | zero s =>
    cases v with
    | notANumber => exact absurd below' id
    | infinity t => exact absurd below' id
    | zero t => cases s <;> cases t <;> trivial
    | finite t n f h => exact SizeBelow.mono (u := .finite (-t) n f h) below' (by omega)
  | finite s m e h =>
    cases v with
    | notANumber => exact absurd below' id
    | infinity t => exact absurd below' id
    | zero t => exact below.mono (by omega)
    | finite t n f h' =>
      exact normalized_below least below below' (signed_difference_between s t _ _)

theorem normalized_from {z : Int} (some : z ≠ 0) (least : -1074 ≤ k)
    (size : k ≤ z.natAbs.log2 + e) :
    SizeFrom k (UnpackedFloat.normalize Format.binary64 z e .positive) := by
  rcases normalized_cases z e with ⟨zero, -⟩ | ⟨negative, eq⟩ | ⟨positive, eq⟩
  · exact absurd zero some
  · rw [eq]
    exact round_from (by omega) least size
  · rw [eq]
    exact round_from (by omega) least size

theorem difference_from (least : -1074 ≤ k) (size : SizeFrom (k + 1) u) (below : SizeBelow k v) :
    SizeFrom k (UnpackedFloat.sub Format.binary64 u v) := by
  cases u with
  | notANumber => exact absurd size id
  | zero s => exact absurd size id
  | infinity s =>
    cases v with
    | notANumber => exact absurd below id
    | infinity t => exact absurd below id
    | _ => trivial
  | finite s m e h =>
    have above : k + 1 ≤ m.log2 + e := size
    cases v with
    | notANumber => exact absurd below id
    | infinity t => exact absurd below id
    | zero t => exact Int.le_trans (by omega) above
    | finite t n f h' =>
      have under : n.log2 + f < k := below
      have left := shifted_size_from h above (Int.min_le_left e f)
      have right := shifted_size_below under (Int.min_le_right e f)
      have between := signed_difference_between s t (m <<< (e - min e f).toNat)
        (n <<< (f - min e f).toNat)
      have places : (k + 1 - min e f).toNat = (k - min e f).toNat + 1 := by omega
      rw [places, Nat.pow_succ] at left
      have large : 2 ^ (k - min e f).toNat ≤ Int.natAbs (s.apply (m <<< (e - min e f).toNat : Nat) -
          t.apply (n <<< (f - min e f).toNat : Nat)) := by
        have := between.1
        omega
      have positive := Nat.two_pow_pos (k - min e f).toNat
      refine normalized_from (by omega) least ?_
      have length := (Nat.le_log2 (by omega)).mpr large
      omega

variable {x y : Float}

theorem double_product_below (below : SizeBelow j x.toModel.unpack)
    (below' : SizeBelow k y.toModel.unpack) (least : -1074 ≤ j + k) (most : j + k < 1024) :
    SizeBelow (j + k + 1) (x * y).toModel.unpack :=
  packed_below (product_rounded (double_rounded x) (double_rounded y)) (by omega)
    (product_below (double_rounded x) (double_rounded y) below below' least)

theorem double_quotient_below (below : SizeBelow j x.toModel.unpack)
    (size : SizeFrom k y.toModel.unpack) (least : -1074 < j - k) (most : j - k < 1024) :
    SizeBelow (j - k + 1) (x / y).toModel.unpack :=
  packed_below (quotient_rounded (double_rounded x) (double_rounded y)) (by omega)
    (quotient_below (double_rounded x) (double_rounded y) below size least)

theorem double_sum_below (below : SizeBelow k x.toModel.unpack)
    (below' : SizeBelow k y.toModel.unpack) (least : -1075 ≤ k) (most : k ≤ 1022) :
    SizeBelow (k + 2) (x + y).toModel.unpack :=
  packed_below (sum_rounded (double_rounded x) (double_rounded y)) (by omega)
    (sum_below least below below')

theorem double_difference_below (below : SizeBelow k x.toModel.unpack)
    (below' : SizeBelow k y.toModel.unpack) (least : -1075 ≤ k) (most : k ≤ 1022) :
    SizeBelow (k + 2) (x - y).toModel.unpack :=
  packed_below (difference_rounded (double_rounded x) (double_rounded y)) (by omega)
    (difference_below least below below')

theorem double_difference_from (least : -1074 ≤ k) (size : SizeFrom (k + 1) x.toModel.unpack)
    (below : SizeBelow k y.toModel.unpack) : SizeFrom k (x - y).toModel.unpack :=
  packed_from (difference_rounded (double_rounded x) (double_rounded y))
    (difference_from least size below)

end Authorship
