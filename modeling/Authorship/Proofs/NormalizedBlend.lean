import Authorship.Proofs.DoubleErrors
import Authorship.Proofs.FiniteTerms

/-
The weights of a blend after they have been divided by their sum, as doubles. Rounding does not keep
them from adding up to about one. What does is a sum that has overflowed: every weight is divided
to zero then, and nothing is left of the blend.
-/
namespace Authorship.Detection.Blend

open Scalar

/-- Weights that are all sound and still have no sum. -/
def Overflows (b : Blend Float) : Prop :=
  (∀ w ∈ b.weights, w.isFinite = true ∧ zero ≤ w) ∧ b.total.isFinite = false

variable {b : Blend Float}

def exactTotal (b : Blend Float) : Rat :=
  valueOf b.baseline + valueOf b.perfection + valueOf b.simplicity + valueOf b.chaos

theorem weights_values_nonneg (leans : ∀ w ∈ b.weights, Leans .positive w.toModel.unpack) :
    0 ≤ valueOf b.baseline ∧ 0 ≤ valueOf b.perfection ∧ 0 ≤ valueOf b.simplicity ∧
      0 ≤ valueOf b.chaos := by
  simp only [weights, List.forall_mem_cons, List.not_mem_nil, false_implies, implies_true,
    and_true] at leans
  exact ⟨value_nonneg leans.1, value_nonneg leans.2.1, value_nonneg leans.2.2.1,
    value_nonneg leans.2.2.2⟩

/-- Three roundings. -/
theorem total_near (leans : ∀ w ∈ b.weights, Leans .positive w.toModel.unpack)
    (finite : b.total.isFinite = true) :
    |valueOf b.total - b.exactTotal| ≤ b.exactTotal / 2 ^ 50 := by
  obtain ⟨baseline, perfection, simplicity, chaos⟩ := weights_values_nonneg leans
  simp only [weights, List.forall_mem_cons, List.not_mem_nil, false_implies, implies_true,
    and_true] at leans
  obtain ⟨leans₁, leans₂, leans₃, leans₄⟩ := leans
  have three := finite_of_sum finite
  have two := finite_of_sum three.1
  have one := finite_of_sum two.1
  have near := (double_sum_near one.1 one.2).near two.1
  have near' := (double_sum_near two.1 two.2).near three.1
  have near'' := (double_sum_near three.1 three.2).near finite
  have first := value_nonneg (double_sum_leans leans₁ leans₂)
  have second := value_nonneg (double_sum_leans (double_sum_leans leans₁ leans₂) leans₃)
  rw [abs_of_nonneg (a := _ + _) (by positivity), abs_le] at near near' near''
  rw [abs_le, exactTotal, total]
  constructor <;> linarith

theorem small_total (small : ∀ w ∈ b.weights, SizeBelow 2 w.toModel.unpack) :
    SizeBelow 8 b.total.toModel.unpack := by
  simp only [weights, List.forall_mem_cons, List.not_mem_nil, false_implies, implies_true,
    and_true] at small
  obtain ⟨baseline, perfection, simplicity, chaos⟩ := small
  have two := double_sum_below baseline perfection (by decide) (by decide)
  have three := double_sum_below two (simplicity.mono (by decide)) (by decide) (by decide)
  exact double_sum_below three (chaos.mono (by decide)) (by decide) (by decide)

theorem exact_shares_near {total exact : Rat} (positive : 0 < total)
    (near : |total - exact| ≤ exact / 2 ^ 50) : |exact / total - 1| ≤ 1 / 2 ^ 49 := by
  rw [div_sub_one positive.ne', abs_div, abs_of_pos positive, div_le_iff₀ positive, abs_sub_comm]
  have twice : exact ≤ 2 * total := by
    rw [abs_le] at near
    linarith
  linarith

/-- Seven roundings, each to one part in the places of a mantissa. -/
theorem divided_total_near (divisible : b.Divisible) (finite : b.total.isFinite = true) :
    |valueOf b.divided.total - 1| ≤ 1 / 2 ^ 46 := by
  have leans := divisible.leans
  have small := divided_small divisible
  have finiteTotal := (small_total fun w member => (small w member).2).finite
  have positive : 0 < valueOf b.total := by
    have some := divisible.2
    rw [double_le_iff_value (total_leans leans).number zero_number, value_zero] at some
    exact not_le.mp some
  have quotient {w : Float} (member : w ∈ b.weights) :=
    double_quotient_near (divisible.1 w member).1 finite positive.ne'
      (small _ (divided_weights b ▸ List.mem_map_of_mem member)).2.finite
  have near := exact_shares_near positive (total_near leans finite)
  have near' := total_near (fun w member => (small w member).1) finiteTotal
  have tiny : (2 : Rat) ^ (-1074 : Int) ≤ 1 / 2 ^ 60 := by
    rw [one_div, ← zpow_natCast, ← zpow_neg]
    exact zpow_le_zpow_right₀ one_le_two (by decide)
  obtain ⟨baseline, perfection, simplicity, chaos⟩ := weights_values_nonneg leans
  have first := quotient (w := b.baseline) (by simp [weights])
  have second := quotient (w := b.perfection) (by simp [weights])
  have third := quotient (w := b.simplicity) (by simp [weights])
  have fourth := quotient (w := b.chaos) (by simp [weights])
  rw [abs_of_nonneg (div_nonneg baseline positive.le), abs_le] at first
  rw [abs_of_nonneg (div_nonneg perfection positive.le), abs_le] at second
  rw [abs_of_nonneg (div_nonneg simplicity positive.le), abs_le] at third
  rw [abs_of_nonneg (div_nonneg chaos positive.le), abs_le] at fourth
  rw [exactTotal, add_div, add_div, add_div, abs_le] at near
  rw [exactTotal, abs_le] at near'
  simp only [divided] at near' ⊢
  rw [abs_le]
  constructor <;> linarith

theorem tolerance_unpacked : (tolerance : Float).toModel.unpack =
    .finite .positive 4611686018427388 (-62) (by decide) := by rfl

theorem tolerance_number : (tolerance : Float).isNaN = false :=
  congrArg Float.Model.UnpackedFloat.isNaN tolerance_unpacked

theorem value_tolerance :
    1 / 2 ^ 10 ≤ valueOf (tolerance : Float) ∧ valueOf (tolerance : Float) ≤ 1 / 2 ^ 9 := by
  have value : valueOf (tolerance : Float) = 4611686018427388 * 2 ^ (-62 : Int) := by
    rw [valueOf, tolerance_unpacked]
    rfl
  rw [value]
  norm_num

/-- How far off the total is, after one more rounding. -/
theorem deviation_near (small : SizeBelow 8 b.total.toModel.unpack) {off : Rat}
    (exact : |valueOf b.total - 1| = off) :
    (abs (b.total - one)).isNaN = false ∧ |valueOf (abs (b.total - one)) - off| ≤ off / 2 ^ 52 := by
  have size : SizeBelow 10 (b.total - one).toModel.unpack :=
    double_difference_below small (one_below.mono (by decide)) (by decide) (by decide)
  have finite : (b.total - one).isFinite = true := size.finite
  have near := (double_difference_near (y := one) small.finite one_finite).near finite
  rw [value_one, exact] at near
  generalize b.total - one = deviation at *
  have value : valueOf (abs deviation) = |valueOf deviation| := value_of_abs deviation
  constructor
  · exact (double_abs_leans (finite_is_number finite)).number
  · rw [value]
    nth_rewrite 1 [← exact]
    exact (abs_abs_sub_abs_le _ _).trans near

theorem valid_of_total_near (leans : ∀ w ∈ b.weights, Leans .positive w.toModel.unpack)
    (small : SizeBelow 8 b.total.toModel.unpack) (near : |valueOf b.total - 1| ≤ 1 / 2 ^ 46) :
    b.isValid = true := by
  obtain ⟨number, off⟩ := deviation_near small rfl
  rw [isValid, Bool.and_eq_true, List.all_eq_true, decide_eq_true_eq]
  constructor
  · exact fun w member => decide_eq_true ((zero_le_iff_leans w).mpr (leans w member))
  · rw [double_lt_iff_value number tolerance_number]
    have tolerated := value_tolerance.1
    rw [abs_le] at off
    linarith

theorem invalid_of_total_zero (small : SizeBelow 8 b.total.toModel.unpack)
    (nothing : valueOf b.total = 0) : b.isValid = false := by
  have whole : |valueOf b.total - 1| = 1 := by
    rw [nothing]
    norm_num
  obtain ⟨number, off⟩ := deviation_near small whole
  rw [isValid, Bool.and_eq_false_iff]
  right
  rw [decide_eq_false_iff_not, double_lt_iff_value number tolerance_number, not_lt]
  have tolerated := value_tolerance.2
  rw [abs_le] at off
  linarith

theorem overflow_divides (overflows : b.Overflows) : b.Divisible := by
  refine ⟨overflows.1, ?_⟩
  have leans := total_leans fun w member => (zero_le_iff_leans w).mp (overflows.1 w member).2
  rw [le_zero_iff_leans, infinite_of_leans leans overflows.2]
  simp [Leans]

theorem divided_nothing (overflows : b.Overflows) :
    ∀ w ∈ b.divided.weights, (w == zero) = true := by
  have leans := total_leans (overflow_divides overflows).leans
  rw [divided_weights, List.forall_mem_map]
  exact fun w member => beq_zero_iff.mpr (divided_by_infinity (overflows.1 w member).1
    (infinite_of_leans leans overflows.2))

theorem divided_total_zero (overflows : b.Overflows) : valueOf b.divided.total = 0 := by
  have small := divided_small (overflow_divides overflows)
  have near := total_near (fun w member => (small w member).1)
    (small_total fun w member => (small w member).2).finite
  have nothing (w : Float) (member : w ∈ b.divided.weights) : valueOf w = 0 := by
    rw [← value_zero, ← double_beq_iff_value (small w member).1.number zero_number]
    exact divided_nothing overflows w member
  have exact : b.divided.exactTotal = 0 := by
    rw [exactTotal, nothing _ (by simp [weights]), nothing _ (by simp [weights]),
      nothing _ (by simp [weights]), nothing _ (by simp [weights])]
    norm_num
  rw [exact, zero_div, sub_zero] at near
  exact abs_eq_zero.mp (le_antisymm near (abs_nonneg _))

/-- The weights are left valid but for a sum that has overflowed, which leaves them all zero. -/
theorem normalized_valid_iff (b : Blend Float) :
    (b.normalize.isValid = true ↔ ¬ b.Overflows) ∧
      (b.Overflows → ∀ w ∈ b.normalize.weights, (w == zero) = true) := by
  rcases b.normalize_cases with ⟨divisible, eq⟩ | ⟨indivisible, eq⟩
  · have small := divided_small divisible
    have total := small_total fun w member => (small w member).2
    rw [eq]
    by_cases finite : b.total.isFinite = true
    · have sound : ¬ b.Overflows := fun overflows => Bool.false_ne_true (overflows.2 ▸ finite)
      refine ⟨iff_of_true ?_ sound, fun overflows => absurd overflows sound⟩
      exact valid_of_total_near (fun w member => (small w member).1) total
        (divided_total_near divisible finite)
    · have overflows : b.Overflows := ⟨divisible.1, Bool.eq_false_of_not_eq_true finite⟩
      refine ⟨iff_of_false ?_ (not_not_intro overflows), fun _ => divided_nothing overflows⟩
      rw [invalid_of_total_zero total (divided_total_zero overflows)]
      exact Bool.false_ne_true
  · have sound : ¬ b.Overflows := fun overflows => indivisible (overflow_divides overflows)
    rw [eq]
    exact ⟨iff_of_true (by decide +kernel) sound, fun overflows => absurd overflows sound⟩

theorem large_weights_vanish :
    let b : Blend Float := ⟨1e308, 1e308, 1e308, 1e308⟩
    b.normalize.isValid = false ∧ ∀ w ∈ b.normalize.weights, (w == zero) = true := by
  decide +kernel

end Authorship.Detection.Blend
