import Authorship.Proofs.DoubleShares
import Authorship.Proofs.DoubleSizes
import Authorship.Proofs.DoubleSymmetry

/-
On which side of zero a double is, the two zeros being on both. Products, quotients and sums are on
the side that exact arithmetic gives, and a difference is on the side that the comparison tells.
-/
namespace Authorship

open Float.Model (UnpackedFloat Format)
open Float.Model.UnpackedFloat

def Leans (s : Sign) : UnpackedFloat → Prop
  | .notANumber => False
  | .zero _ => True
  | .infinity t | .finite t _ _ _ => t = s

variable {u v : UnpackedFloat} {s t : Sign} {k : Int}

theorem Leans.number (leans : Leans s u) : u.isNaN = false := by
  cases u with
  | notANumber => exact absurd leans id
  | _ => rfl

theorem zero_le_iff_leans (x : Float) :
    Scalar.zero ≤ x ↔ Leans .positive x.toModel.unpack := by
  rw [double_le_iff, compareDoubles, zero_unpacked]
  cases x.toModel.unpack with
  | notANumber => simp [UnpackedFloat.compare, Leans]
  | zero s => simp [UnpackedFloat.compare, Leans]
  | infinity s => cases s <;> simp [UnpackedFloat.compare, Leans]
  | finite s m e h => cases s <;> simp [UnpackedFloat.compare, Leans]

theorem le_zero_iff_leans (x : Float) :
    x ≤ Scalar.zero ↔ Leans .negative x.toModel.unpack := by
  rw [double_le_iff, compareDoubles, zero_unpacked]
  cases x.toModel.unpack with
  | notANumber => simp [UnpackedFloat.compare, Leans]
  | zero s => simp [UnpackedFloat.compare, Leans]
  | infinity s => cases s <;> simp [UnpackedFloat.compare, Leans]
  | finite s m e h => cases s <;> simp [UnpackedFloat.compare, Leans]

theorem packed_leans (rounded : Rounded u) (leans : Leans s u) :
    Leans s (Float.Model.pack u).unpack := by
  rcases packed_cases rounded with same | ⟨s', m, e, h, rfl, -, eq⟩
  · rwa [same]
  · rw [eq]
    exact leans

theorem rounded_leans (s : Sign) (m : Nat) (e : Int) (accuracy : Accuracy) :
    Leans s (roundWithAccuracy Format.binary64 s m e accuracy) := by
  rw [rounded_result s m e accuracy rfl rfl]
  split <;> trivial

theorem product_leans (left : Leans s u) (right : Leans t v) (finite : u.isFinite = true)
    (finite' : v.isFinite = true) : Leans (s * t) (UnpackedFloat.mul Format.binary64 u v) := by
  cases u with
  | notANumber => exact absurd left id
  | infinity s' => exact absurd finite Bool.false_ne_true
  | zero s' =>
    cases v with
    | notANumber => exact absurd right id
    | infinity t' => exact absurd finite' Bool.false_ne_true
    | _ => trivial
  | finite s' m e h =>
    obtain rfl : s' = s := left
    cases v with
    | notANumber => exact absurd right id
    | infinity t' => exact absurd finite' Bool.false_ne_true
    | zero t' => trivial
    | finite t' n f h' =>
      obtain rfl : t' = t := right
      exact rounded_leans _ _ _ _

theorem quotient_leans (left : Leans s u) (finite : u.isFinite = true) (right : Leans .positive v)
    (size : SizeFrom k v) : Leans s (UnpackedFloat.div Format.binary64 u v) := by
  have same : s / Sign.positive = s := by cases s <;> rfl
  cases u with
  | notANumber => exact absurd left id
  | infinity s' => exact absurd finite Bool.false_ne_true
  | zero s' =>
    cases v with
    | notANumber => exact absurd right id
    | zero t => exact absurd size id
    | _ => trivial
  | finite s' m e h =>
    obtain rfl : s' = s := left
    cases v with
    | notANumber => exact absurd right id
    | zero t => exact absurd size id
    | infinity t => trivial
    | finite t n f h' =>
      obtain rfl : t = .positive := right
      simp only [UnpackedFloat.div, div_core_eq, same]
      exact rounded_leans _ _ _ _

theorem normalized_leans {z : Int} (e : Int) :
    (0 ≤ z → Leans .positive (UnpackedFloat.normalize Format.binary64 z e .positive)) ∧
      (z ≤ 0 → Leans .negative (UnpackedFloat.normalize Format.binary64 z e .positive)) := by
  have rounds (s : Sign) (m : Nat) : Leans s (UnpackedFloat.round Format.binary64 s m e) :=
    rounded_leans s _ _ _
  rcases normalized_cases z e with ⟨-, eq⟩ | ⟨negative, eq⟩ | ⟨positive, eq⟩
  · rw [eq]
    exact ⟨fun _ => trivial, fun _ => trivial⟩
  · rw [eq]
    exact ⟨fun positive => by omega, fun _ => rounds _ _⟩
  · rw [eq]
    exact ⟨fun _ => rounds _ _, fun negative => by omega⟩

theorem sum_leans (left : Leans .positive u) (right : Leans .positive v) :
    Leans .positive (UnpackedFloat.add Format.binary64 u v) := by
  cases u with
  | notANumber => exact absurd left id
  | infinity s =>
    obtain rfl : s = .positive := left
    cases v with
    | notANumber => exact absurd right id
    | infinity t =>
      obtain rfl : t = .positive := right
      rfl
    | _ => rfl
  | zero s =>
    cases v with
    | zero t => cases s <;> cases t <;> trivial
    | _ => exact right
  | finite s m e h =>
    obtain rfl : s = .positive := left
    cases v with
    | notANumber => exact absurd right id
    | infinity t => exact right
    | zero t => rfl
    | finite t n f h' =>
      obtain rfl : t = .positive := right
      exact (normalized_leans _).1 (Int.add_nonneg (Int.natCast_nonneg _) (Int.natCast_nonneg _))

theorem sum_from (least : -1074 ≤ k) (left : Leans .positive u) (right : Leans .positive v)
    (size : SizeFrom k u) : SizeFrom k (UnpackedFloat.add Format.binary64 u v) := by
  cases u with
  | notANumber => exact absurd left id
  | zero s => exact absurd size id
  | infinity s =>
    obtain rfl : s = .positive := left
    cases v with
    | notANumber => exact absurd right id
    | infinity t =>
      obtain rfl : t = .positive := right
      trivial
    | _ => trivial
  | finite s m e h =>
    obtain rfl : s = .positive := left
    cases v with
    | notANumber => exact absurd right id
    | infinity t => trivial
    | zero t => exact size
    | finite t n f h' =>
      obtain rfl : t = .positive := right
      have above : k ≤ m.log2 + e := size
      have shifted := log2_shifted (e - min e f).toNat (Nat.ne_of_gt h)
      have positive : 0 < m <<< (e - min e f).toNat := by
        rw [Nat.shiftLeft_eq]
        exact Nat.mul_pos h (Nat.two_pow_pos _)
      simp only [UnpackedFloat.add, decreaseExponent, Sign.apply]
      generalize m <<< (e - min e f).toNat = a at *
      generalize n <<< (f - min e f).toNat = b at *
      have length : a.log2 ≤ ((a : Int) + b).natAbs.log2 := by
        rw [Nat.le_log2 (by omega)]
        exact (Nat.log2_self_le (Nat.ne_of_gt positive)).trans (by omega)
      exact normalized_from (by omega) least (by omega)

theorem shifted_lt {m n : Nat} {e f : Int} {h : 0 < m} {h' : 0 < n}
    (left : Rounded (.finite s m e h)) (right : Rounded (.finite t n f h'))
    (order : e < f ∨ e = f ∧ m < n) :
    m <<< (e - min e f).toNat < n <<< (f - min e f).toNat := by
  rcases order with less | ⟨rfl, less⟩
  · obtain ⟨least, length⟩ := left
    obtain ⟨-, full | ⟨-, rfl⟩⟩ := right
    · have stays : (e - min e f).toNat = 0 := by omega
      have short : m < 2 ^ 53 := Nat.lt_of_lt_of_le Nat.lt_log2_self
        (Nat.pow_le_pow_right (by decide) (by omega))
      have low : 2 ^ 52 ≤ n := full ▸ Nat.log2_self_le (Nat.ne_of_gt h')
      have places : 2 ^ 1 ≤ 2 ^ (f - min e f).toNat :=
        Nat.pow_le_pow_right (by decide) (by omega)
      rw [stays, Nat.shiftLeft_zero, Nat.shiftLeft_eq]
      calc m < 2 ^ 52 * 2 ^ 1 := short
        _ ≤ n * 2 ^ (f - min e f).toNat := Nat.mul_le_mul low places
    · omega
  · simpa using less

theorem compare_shifted {m n : Nat} {e f : Int} {h : 0 < m} {h' : 0 < n}
    (left : Rounded (.finite s m e h)) (right : Rounded (.finite t n f h')) :
    (compare e f).then (compare m n) =
      compare (m <<< (e - min e f).toNat) (n <<< (f - min e f).toNat) := by
  rcases lt_trichotomy e f with less | rfl | greater
  · have order := shifted_lt left right (Or.inl less)
    rw [Int.compare_eq_lt.mpr less, Nat.compare_eq_lt.mpr order]
    rfl
  · have stays : (e - min e e).toNat = 0 := by omega
    rw [stays, Int.compare_eq_eq.mpr rfl]
    rfl
  · have order := shifted_lt right left (Or.inl greater)
    rw [Int.min_comm] at order
    rw [Int.compare_eq_gt.mpr greater, Nat.compare_eq_gt.mpr order]
    rfl

theorem difference_leans {n : Nat} {f : Int} {h' : 0 < n} (left : Rounded u)
    (right : Rounded (.finite .positive n f h')) (finite : u.isFinite = true) :
    (u.compare (.finite .positive n f h') = some .lt →
      Leans .negative (UnpackedFloat.sub Format.binary64 u (.finite .positive n f h'))) ∧
    (u.compare (.finite .positive n f h') ≠ some .lt →
      Leans .positive (UnpackedFloat.sub Format.binary64 u (.finite .positive n f h'))) := by
  cases u with
  | notANumber => exact absurd finite Bool.false_ne_true
  | infinity s => exact absurd finite Bool.false_ne_true
  | zero s => exact ⟨fun _ => rfl, fun notLess => absurd rfl notLess⟩
  | finite s m e h =>
    cases s with
    | negative =>
      refine ⟨fun _ => (normalized_leans _).2 ?_, fun notLess => absurd rfl notLess⟩
      exact Int.sub_nonpos_of_le (Int.le_trans (Int.neg_nonpos_of_nonneg (Int.natCast_nonneg _))
        (Int.natCast_nonneg _))
    | positive =>
      have lexical : (UnpackedFloat.finite .positive m e h).compare (.finite .positive n f h') =
          some (compare (m <<< (e - min e f).toNat) (n <<< (f - min e f).toNat)) :=
        congrArg some (compare_shifted left right)
      rw [lexical, Ne, Option.some_inj, Nat.compare_eq_lt, not_lt]
      constructor
      · intro less
        exact (normalized_leans _).2 (Int.sub_nonpos_of_le (Int.ofNat_le.mpr less.le))
      · intro notLess
        exact (normalized_leans _).1 (Int.sub_nonneg_of_le (Int.ofNat_le.mpr notLess))

theorem normalized_number (z : Int) (e : Int) :
    (UnpackedFloat.normalize Format.binary64 z e .positive).isNaN = false := by
  rcases Int.le_total 0 z with above | below
  · exact ((normalized_leans e).1 above).number
  · exact ((normalized_leans e).2 below).number

theorem packed_number (rounded : Rounded u) (number : u.isNaN = false) :
    (Float.Model.pack u).unpack.isNaN = false := by
  rcases packed_cases rounded with same | ⟨s, m, e, h, -, -, eq⟩
  · rwa [same]
  · rw [eq]
    rfl

theorem difference_number (finite : u.isFinite = true) (number : v.isNaN = false) :
    (UnpackedFloat.sub Format.binary64 u v).isNaN = false := by
  cases u with
  | notANumber => exact absurd finite Bool.false_ne_true
  | infinity s => exact absurd finite Bool.false_ne_true
  | zero s =>
    cases v with
    | notANumber => exact absurd number.symm Bool.false_ne_true
    | zero t => cases s <;> cases t <;> rfl
    | _ => rfl
  | finite s m e h =>
    cases v with
    | notANumber => exact absurd number.symm Bool.false_ne_true
    | finite t n f h' => exact normalized_number _ _
    | _ => rfl

theorem quotient_number (number : u.isNaN = false) (divisor : PositiveFinite v) :
    (UnpackedFloat.div Format.binary64 u v).isNaN = false := by
  obtain ⟨n, f, h', rfl⟩ := divisor.form
  cases u with
  | notANumber => exact absurd number.symm Bool.false_ne_true
  | finite s m e h => exact (rounded_leans _ _ _ _).number
  | _ => rfl

variable {x y : Float}

theorem double_product_leans (left : Leans s x.toModel.unpack) (right : Leans t y.toModel.unpack)
    (finite : x.isFinite = true) (finite' : y.isFinite = true) :
    Leans (s * t) (x * y).toModel.unpack :=
  packed_leans (product_rounded (double_rounded x) (double_rounded y))
    (product_leans left right finite finite')

theorem double_quotient_leans (left : Leans s x.toModel.unpack) (finite : x.isFinite = true)
    (right : Leans .positive y.toModel.unpack) (size : SizeFrom k y.toModel.unpack) :
    Leans s (x / y).toModel.unpack :=
  packed_leans (quotient_rounded (double_rounded x) (double_rounded y))
    (quotient_leans left finite right size)

theorem double_sum_leans (left : Leans .positive x.toModel.unpack)
    (right : Leans .positive y.toModel.unpack) : Leans .positive (x + y).toModel.unpack :=
  packed_leans (sum_rounded (double_rounded x) (double_rounded y)) (sum_leans left right)

theorem double_sum_from (least : -1074 ≤ k) (left : Leans .positive x.toModel.unpack)
    (right : Leans .positive y.toModel.unpack)
    (size : SizeFrom k x.toModel.unpack ∨ SizeFrom k y.toModel.unpack) :
    SizeFrom k (x + y).toModel.unpack := by
  rcases size with size | size
  · exact packed_from (sum_rounded (double_rounded x) (double_rounded y))
      (sum_from least left right size)
  · rw [double_add_comm]
    exact packed_from (sum_rounded (double_rounded y) (double_rounded x))
      (sum_from least right left size)

theorem double_difference_leans (finite : x.isFinite = true)
    (positive : PositiveFinite y.toModel.unpack) :
    (x < y → Leans .negative (x - y).toModel.unpack) ∧
      (¬ x < y → Leans .positive (x - y).toModel.unpack) := by
  obtain ⟨n, f, h', form⟩ := positive.form
  have right := double_rounded y
  have rounded := difference_rounded (double_rounded x) right
  rw [form] at right
  have sides := difference_leans (double_rounded x) right finite
  rw [← form] at sides
  rw [double_lt_iff]
  exact ⟨fun less => packed_leans rounded (sides.1 less),
    fun notLess => packed_leans rounded (sides.2 notLess)⟩

theorem double_difference_number (finite : x.isFinite = true) (number : y.isNaN = false) :
    (x - y).isNaN = false :=
  packed_number (difference_rounded (double_rounded x) (double_rounded y))
    (difference_number finite number)

theorem double_quotient_number (number : x.isNaN = false)
    (divisor : PositiveFinite y.toModel.unpack) : (x / y).isNaN = false :=
  packed_number (quotient_rounded (double_rounded x) (double_rounded y))
    (quotient_number number divisor)

theorem not_lt_of_sizes (leans : Leans .positive x.toModel.unpack)
    (size : SizeFrom k x.toModel.unpack) (below : SizeBelow k y.toModel.unpack) : ¬ x < y := by
  rw [double_lt_iff, compareDoubles]
  have left := double_rounded x
  have right := double_rounded y
  generalize x.toModel.unpack = u at *
  generalize y.toModel.unpack = v at *
  cases u with
  | notANumber => exact absurd leans id
  | zero s => exact absurd size id
  | infinity s =>
    obtain rfl : s = .positive := leans
    cases v with
    | infinity t => exact absurd below id
    | _ => simp [UnpackedFloat.compare]
  | finite s m e h =>
    obtain rfl : s = .positive := leans
    cases v with
    | notANumber => exact absurd below id
    | infinity t => exact absurd below id
    | zero t => simp [UnpackedFloat.compare]
    | finite t n f h' =>
      cases t with
      | negative => simp [UnpackedFloat.compare]
      | positive =>
        have above : k ≤ m.log2 + e := size
        have under : n.log2 + f < k := below
        have lexical : (UnpackedFloat.finite .positive m e h).compare (.finite .positive n f h') =
            some (compare (m <<< (e - min e f).toNat) (n <<< (f - min e f).toNat)) :=
          congrArg some (compare_shifted left right)
        have low := shifted_size_from h above (Int.min_le_left e f)
        have high := shifted_size_below under (Int.min_le_right e f)
        rw [lexical, Option.some_inj, Nat.compare_eq_lt]
        omega

theorem double_abs_unpacked (x : Float) : x.abs.toModel.unpack = x.toModel.unpack.abs := by
  have rounded : Rounded x.toModel.unpack.abs := by
    have rounded := double_rounded x
    cases kind : x.toModel.unpack <;> rw [kind] at rounded <;> exact rounded
  rcases packed_cases rounded with same | ⟨s, m, e, h, size, huge, -⟩
  · exact same
  · have finite : x.isFinite = true := by
      change x.toModel.unpack.isFinite = true
      cases kind : x.toModel.unpack <;> rw [kind] at size <;> first | rfl | contradiction
    have double : OfDouble x.toModel.unpack := unpacked_of_double finite
    cases kind : x.toModel.unpack with
    | finite s' m' e' h' =>
      rw [kind] at size double
      have same : e' = e := by injection size
      have most : e' ≤ 971 := double.2
      omega
    | _ =>
      rw [kind] at size
      contradiction

theorem double_abs_leans (number : x.isNaN = false) : Leans .positive x.abs.toModel.unpack := by
  have number : x.toModel.unpack.isNaN = false := number
  rw [double_abs_unpacked]
  generalize x.toModel.unpack = u at number
  cases u with
  | notANumber => contradiction
  | _ => trivial

theorem double_abs_from (size : SizeFrom k x.toModel.unpack) :
    SizeFrom k x.abs.toModel.unpack := by
  rw [double_abs_unpacked]
  generalize x.toModel.unpack = u at size
  cases u <;> exact size

theorem one_below : SizeBelow 1 (Scalar.one : Float).toModel.unpack := by decide +kernel

theorem share_size (share : Scalar.IsShare x) :
    Leans .positive x.toModel.unpack ∧ SizeBelow 1 x.toModel.unpack := by
  have leans := (zero_le_iff_leans x).mp share.1
  have rounded := double_rounded x
  have atMost := share.2
  rw [double_le_iff, compareDoubles, one_unpacked] at atMost
  refine ⟨leans, ?_⟩
  cases kind : x.toModel.unpack with
  | notANumber => simp [kind, Leans] at leans
  | zero s => trivial
  | infinity s =>
    rw [kind] at leans atMost
    obtain rfl : s = .positive := leans
    simp [UnpackedFloat.compare] at atMost
  | finite s m e h =>
    rw [kind] at leans atMost rounded
    obtain rfl : s = .positive := leans
    change some ((compare e (-52)).then (compare m (2 ^ 52))) = _ ∨
      some ((compare e (-52)).then (compare m (2 ^ 52))) = _ at atMost
    have small : e ≤ -52 := by
      by_contra large
      rw [Int.compare_eq_gt.mpr (by omega)] at atMost
      simp at atMost
    obtain ⟨-, length⟩ := rounded
    rw [SizeBelow]
    omega

theorem fold_sum_below {j k : Int} {xs : List Float} {start : Float} (least : -1075 ≤ j)
    (le : j ≤ k) (below : ∀ x ∈ xs, SizeBelow j x.toModel.unpack) (most : k + 2 * xs.length ≤ 1022)
    (small : SizeBelow k start.toModel.unpack) :
    SizeBelow (k + 2 * xs.length) (xs.foldl (· + ·) start).toModel.unpack := by
  induction xs generalizing start k with
  | nil => exact small.mono (by simp)
  | cons x xs ih =>
    obtain ⟨first, others⟩ := List.forall_mem_cons.mp below
    rw [List.length_cons] at most ⊢
    have added := double_sum_below small (first.mono le) (by omega) (by omega)
    have rest := ih (by omega) others (by omega) added
    exact rest.mono (by omega)

theorem list_sum_below {j : Int} {xs : List Float} (least : -1075 ≤ j)
    (below : ∀ x ∈ xs, SizeBelow j x.toModel.unpack) (most : j + 2 * xs.length ≤ 1022) :
    SizeBelow (j + 2 * xs.length) (Scalar.sum xs).toModel.unpack :=
  fold_sum_below least (Int.le_refl j) below most trivial

theorem fold_sum_leans {xs : List Float} {start : Float}
    (leans : ∀ x ∈ xs, Leans .positive x.toModel.unpack)
    (started : Leans .positive start.toModel.unpack) :
    Leans .positive (xs.foldl (· + ·) start).toModel.unpack := by
  induction xs generalizing start with
  | nil => exact started
  | cons x xs ih =>
    obtain ⟨first, others⟩ := List.forall_mem_cons.mp leans
    exact ih others (double_sum_leans started first)

theorem fold_sum_from {xs : List Float} {start : Float} (least : -1074 ≤ k)
    (leans : ∀ x ∈ xs, Leans .positive x.toModel.unpack)
    (started : Leans .positive start.toModel.unpack)
    (large : SizeFrom k start.toModel.unpack ∨ ∃ x ∈ xs, SizeFrom k x.toModel.unpack) :
    SizeFrom k (xs.foldl (· + ·) start).toModel.unpack := by
  induction xs generalizing start with
  | nil => simpa using large
  | cons x xs ih =>
    obtain ⟨first, others⟩ := List.forall_mem_cons.mp leans
    apply ih others (double_sum_leans started first)
    rcases large with here | ⟨y, member, later⟩
    · exact Or.inl (double_sum_from least started first (Or.inl here))
    · rcases List.mem_cons.mp member with rfl | member
      · exact Or.inl (double_sum_from least started first (Or.inr later))
      · exact Or.inr ⟨y, member, later⟩

theorem sum_start_leans : Leans .positive (-Scalar.zero : Float).toModel.unpack := by
  have start : (-Scalar.zero : Float).toModel.unpack = .zero .negative := by rfl
  rw [start]
  trivial

theorem list_sum_leans {xs : List Float} (leans : ∀ x ∈ xs, Leans .positive x.toModel.unpack) :
    Leans .positive (Scalar.sum xs).toModel.unpack :=
  fold_sum_leans leans sum_start_leans

theorem list_sum_from {xs : List Float} (least : -1074 ≤ k)
    (leans : ∀ x ∈ xs, Leans .positive x.toModel.unpack) {x : Float} (member : x ∈ xs)
    (size : SizeFrom k x.toModel.unpack) : SizeFrom k (Scalar.sum xs).toModel.unpack :=
  fold_sum_from least leans sum_start_leans (Or.inr ⟨x, member, size⟩)

end Authorship
