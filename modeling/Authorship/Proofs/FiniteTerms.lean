import Authorship.Proofs.Contributions
import Authorship.Proofs.CriticalFeatures
import Authorship.Proofs.DoubleSides
import Authorship.Proofs.WrittenValues

/-
The terms of a score as doubles. Whatever the settings, the means and the values of a vector are, a
term is a finite number: the rules and the votes of the critical features clamp what they weigh, the
weights of a blend are repaired, and the weight of a critical feature is not below one twentieth. A
vote is on the side of zero on which its score is of one half.
-/
namespace Authorship

/-- That every value is a finite number, as it is if the values were written to the vector. -/
def FeatureVector.Finite (v : FeatureVector Float) : Prop :=
  ∀ name x, v.get? name = some x → x.isFinite = true

theorem FeatureVector.written_finite (writes : List Write) : (written writes).Finite :=
  fun _ _ stored => (written_admits stored).finite

namespace Detection

open Baseline Feature Scalar

theorem half_below : SizeBelow 0 (half : Float).toModel.unpack := by decide +kernel

theorem half_positive : PositiveFinite (half : Float).toModel.unpack := by decide +kernel

/- The weights of a blend. -/

namespace Blend

variable {b : Blend Float}

theorem total_leans (leans : ∀ w ∈ b.weights, Leans .positive w.toModel.unpack) :
    Leans .positive b.total.toModel.unpack := by
  simp only [weights, List.forall_mem_cons, List.not_mem_nil, false_implies, implies_true,
    and_true] at leans
  obtain ⟨baseline, perfection, simplicity, chaos⟩ := leans
  exact double_sum_leans (double_sum_leans (double_sum_leans baseline perfection) simplicity) chaos

theorem total_size_from {k : Int} (least : -1074 ≤ k)
    (leans : ∀ w ∈ b.weights, Leans .positive w.toModel.unpack) {w : Float}
    (member : w ∈ b.weights) (size : SizeFrom k w.toModel.unpack) :
    SizeFrom k b.total.toModel.unpack := by
  simp only [weights, List.forall_mem_cons, List.not_mem_nil, false_implies, implies_true,
    and_true] at leans
  obtain ⟨baseline, perfection, simplicity, chaos⟩ := leans
  have two := double_sum_leans baseline perfection
  have three := double_sum_leans two simplicity
  simp only [weights, List.mem_cons, List.not_mem_nil, or_false] at member
  rcases member with rfl | rfl | rfl | rfl
  · have first := double_sum_from least baseline perfection (Or.inl size)
    have second := double_sum_from least two simplicity (Or.inl first)
    exact double_sum_from least three chaos (Or.inl second)
  · have first := double_sum_from least baseline perfection (Or.inr size)
    have second := double_sum_from least two simplicity (Or.inl first)
    exact double_sum_from least three chaos (Or.inl second)
  · have second := double_sum_from least two simplicity (Or.inr size)
    exact double_sum_from least three chaos (Or.inl second)
  · exact double_sum_from least three chaos (Or.inr size)

theorem valid_weights_small (valid : b.isValid = true) :
    ∀ w ∈ b.weights, Leans .positive w.toModel.unpack ∧ SizeBelow 2 w.toModel.unpack := by
  rw [isValid, Bool.and_eq_true, List.all_eq_true, decide_eq_true_eq] at valid
  obtain ⟨nonneg, near⟩ := valid
  have leans (w : Float) (member : w ∈ b.weights) : Leans .positive w.toModel.unpack :=
    (zero_le_iff_leans w).mp (of_decide_eq_true (nonneg w member))
  intro w member
  refine ⟨leans w member, ?_⟩
  by_contra notBelow
  have size := size_of_not_below (leans w member).number notBelow
  have total := total_size_from (by decide) leans member size
  have off : SizeFrom 1 (b.total - one).toModel.unpack :=
    double_difference_from (by decide) total one_below
  have small : SizeBelow 1 (tolerance : Float).toModel.unpack := by decide +kernel
  exact not_lt_of_sizes (double_abs_leans off.number) (double_abs_from off) small near

/-- Weights that are divided by their sum are small, be the sum infinite. -/
theorem normalized_weights_small (leans : ∀ w ∈ b.weights, Leans .positive w.toModel.unpack)
    (finite : ∀ w ∈ b.weights, w.isFinite = true) (some : ¬ b.total ≤ zero) :
    ∀ w ∈ b.weights, Leans .positive (w / b.total).toModel.unpack ∧
      SizeBelow 2 (w / b.total).toModel.unpack := by
  intro w member
  have total := total_leans leans
  obtain ⟨k, below, size⟩ : ∃ k, SizeBelow (k + 1) w.toModel.unpack ∧
      SizeFrom k b.total.toModel.unpack := by
    have rounded := double_rounded w
    have finite : w.toModel.unpack.isFinite = true := finite w member
    cases kind : w.toModel.unpack with
    | notANumber => simp [kind, Float.Model.UnpackedFloat.isFinite] at finite
    | infinity s => simp [kind, Float.Model.UnpackedFloat.isFinite] at finite
    | zero s =>
      rw [le_zero_iff_leans] at some
      cases whole : b.total.toModel.unpack with
      | notANumber => simp [whole, Leans] at total
      | zero t => simp [whole, Leans] at some
      | infinity t => exact ⟨0, trivial, trivial⟩
      | finite t n f h => exact ⟨n.log2 + f, trivial, Int.le_refl _⟩
    | finite s m e h =>
      rw [kind] at rounded
      have least : -1074 ≤ e := rounded.1
      have size : SizeFrom (m.log2 + e) w.toModel.unpack := by
        rw [kind]
        exact Int.le_refl _
      exact ⟨m.log2 + e, Int.lt_succ _, total_size_from (by omega) leans member size⟩
  have small := double_quotient_below below size (by omega) (by omega)
  exact ⟨double_quotient_leans (leans w member) (finite w member) total size,
    small.mono (by omega)⟩

def divided (b : Blend Float) : Blend Float :=
  ⟨b.baseline / b.total, b.perfection / b.total, b.simplicity / b.total, b.chaos / b.total⟩

theorem divided_weights (b : Blend Float) :
    b.divided.weights = b.weights.map fun w => w / b.total := rfl

/-- Finite weights that are not below zero, with something to divide by. -/
def Divisible (b : Blend Float) : Prop :=
  (∀ w ∈ b.weights, w.isFinite = true ∧ zero ≤ w) ∧ ¬ b.total ≤ zero

theorem normalize_cases (b : Blend Float) :
    b.Divisible ∧ b.normalize = b.divided ∨ ¬ b.Divisible ∧ b.normalize = default := by
  have reset : ((b.weights.any fun w => !isFinite w || w < zero) || b.total ≤ zero) = true ↔
      ¬ b.Divisible := by
    rw [Divisible, Bool.or_eq_true, List.any_eq_true, decide_eq_true_iff, not_and_or, not_not]
    refine or_congr_left ?_
    simp only [not_forall, exists_prop]
    refine exists_congr fun w => and_congr_right fun _ => ?_
    rw [Bool.or_eq_true, Bool.not_eq_true', decide_eq_true_iff, not_and_or, Bool.not_eq_true]
    refine or_congr_right' fun finite => ?_
    have number : w.isNaN = false := finite_is_number (Bool.eq_true_of_not_eq_false finite)
    exact ⟨not_le_of_double_lt, fun notAbove => by_contra fun notBelow =>
      notAbove (double_le_of_not_lt number zero_number notBelow)⟩
  by_cases divisible : b.Divisible
  · exact Or.inl ⟨divisible, if_neg fun other => reset.mp other divisible⟩
  · exact Or.inr ⟨divisible, if_pos (reset.mpr divisible)⟩

theorem Divisible.leans (divisible : b.Divisible) :
    ∀ w ∈ b.weights, Leans .positive w.toModel.unpack :=
  fun w member => (zero_le_iff_leans w).mp (divisible.1 w member).2

theorem divided_small (divisible : b.Divisible) :
    ∀ w ∈ b.divided.weights, Leans .positive w.toModel.unpack ∧ SizeBelow 2 w.toModel.unpack := by
  rw [divided_weights, List.forall_mem_map]
  exact normalized_weights_small divisible.leans (fun w member => (divisible.1 w member).1)
    divisible.2

/-- However the weights are given, those of a detector are not below zero, and they are small. -/
theorem repaired_weights_small (b : Blend Float) :
    ∀ w ∈ b.repair.weights, Leans .positive w.toModel.unpack ∧ SizeBelow 2 w.toModel.unpack := by
  rw [repair]
  split
  · rename_i valid
    exact valid_weights_small valid
  · rcases b.normalize_cases with ⟨divisible, eq⟩ | ⟨-, eq⟩
    · rw [eq]
      exact divided_small divisible
    · have nonneg : ∀ w ∈ (default : Blend Float).weights,
          zero ≤ w ∧ SizeBelow 2 w.toModel.unpack := by decide +kernel
      rw [eq]
      intro w member
      obtain ⟨above, small⟩ := nonneg w member
      exact ⟨(zero_le_iff_leans w).mp above, small⟩

end Blend

namespace Rule

structure Sound (r : Rule Float) : Prop where
  low : r.low.isNaN = false
  span : PositiveFinite (r.high - r.low).toModel.unpack
  weight : SizeBelow 0 r.weight.toModel.unpack

theorem rules_sound : ∀ r ∈ (aiRules ++ humanRules : List (Rule Float)), r.Sound := by
  have tables : ∀ r ∈ (aiRules ++ humanRules : List (Rule Float)), r.low.isNaN = false ∧
      PositiveFinite (r.high - r.low).toModel.unpack ∧ SizeBelow 0 r.weight.toModel.unpack := by
    decide +kernel
  intro r member
  obtain ⟨low, span, weight⟩ := tables r member
  exact ⟨low, span, weight⟩

variable {r : Rule Float} {x : Float}

theorem normalized_small (sound : r.Sound) (finite : x.isFinite = true) :
    SizeBelow 3 (r.normalize x).toModel.unpack := by
  have clamped : IsShare (clamp zero one ((x - r.low) / (r.high - r.low))) :=
    clamped_is_share (double_quotient_number (double_difference_number finite sound.low) sound.span)
  have small : SizeBelow 1 (if zero < r.high - r.low then
      clamp zero one ((x - r.low) / (r.high - r.low)) else zero).toModel.unpack := by
    split
    · exact (share_size clamped).2
    · trivial
  rw [normalize]
  cases r.direction with
  | higher => exact small.mono (by decide)
  | lower => exact double_difference_below one_below small (by decide) (by decide)

theorem weighed_small (sound : r.Sound) (finite : x.isFinite = true) :
    SizeBelow 4 (r.weigh x).toModel.unpack := by
  have product : SizeBelow 4 (r.weight * r.normalize x).toModel.unpack :=
    double_product_below sound.weight (normalized_small sound finite) (by decide) (by decide)
  rw [weigh]
  split
  · split
    · trivial
    · exact product
  · exact product

theorem evaluated_small (sound : r.Sound) {features : FeatureVector Float}
    (finite : features.Finite) : SizeBelow 4 (r.evaluate features).toModel.unpack := by
  rw [evaluate]
  split
  · rename_i x found
    exact weighed_small sound (finite r.feature x found)
  · trivial

end Rule

theorem graded_small {i : Indicator Float} (lenient : SizeBelow 1 i.lenientScore.toModel.unpack)
    (x : Float) : SizeBelow 1 (i.grade x).toModel.unpack := by
  rw [Indicator.grade]
  split
  · decide +kernel
  · split
    · exact lenient
    · trivial

theorem mean_score_small {indicators : List (Indicator Float)}
    (lenient : ∀ i ∈ indicators, SizeBelow 1 i.lenientScore.toModel.unpack)
    (few : indicators.length ≤ 4) (features : FeatureVector Float) :
    SizeBelow 10 (meanScore indicators features).toModel.unpack := by
  rw [meanScore]
  split
  · decide +kernel
  · rename_i some
    have present : 0 < (indicators.filterMap (·.score? features)).length :=
      List.length_pos_iff.mpr (by simpa using some)
    have most := List.length_filterMap_le (·.score? features) indicators
    have each : ∀ x ∈ indicators.filterMap (·.score? features), SizeBelow 1 x.toModel.unpack := by
      intro x member
      obtain ⟨i, inside, scored⟩ := List.mem_filterMap.mp member
      rw [Indicator.score?] at scored
      split at scored
      · obtain ⟨y, -, rfl⟩ := Option.map_eq_some_iff.mp scored
        exact graded_small (lenient i inside) y
      · contradiction
    have sum := list_sum_below (by decide) each (by omega)
    have size : SizeFrom 0 (count (indicators.filterMap (·.score? features)).length : Float
        ).toModel.unpack := by
      have large := count_large present
      cases kind : (count (indicators.filterMap (·.score? features)).length : Float
          ).toModel.unpack with
      | notANumber => simp [kind, Large] at large
      | zero s => simp [kind, Large] at large
      | infinity s => trivial
      | finite s m e h =>
        rw [kind] at large
        obtain ⟨length, least⟩ : m.log2 = 52 ∧ -52 ≤ e := large
        rw [SizeFrom]
        omega
    exact (double_quotient_below sum size (by omega) (by omega)).mono (by omega)

theorem secondary_small (d : BaselineDetector Float)
    (weights : ∀ w ∈ d.blend.weights, SizeBelow 2 w.toModel.unpack)
    (features : FeatureVector Float) :
    ∀ term ∈ d.secondaryTerms (.measure features), SizeBelow 20 term.value.toModel.unpack := by
  have tables : ∀ indicators ∈
      [perfectionIndicators, simplicityIndicators, (chaosIndicators : List (Indicator Float))],
      (∀ i ∈ indicators, SizeBelow 1 i.lenientScore.toModel.unpack) ∧ indicators.length ≤ 4 := by
    decide +kernel
  have half := half_below.mono (k := 10) (by decide)
  simp only [List.forall_mem_cons, List.not_mem_nil, false_implies, implies_true, and_true,
    Blend.weights] at tables weights
  obtain ⟨perfection, simplicity, chaos⟩ := tables
  obtain ⟨-, perfectionWeight, simplicityWeight, chaosWeight⟩ := weights
  have one := one_below.mono (k := 10) (by decide)
  have turned := double_difference_below one (mean_score_small chaos.1 chaos.2 features)
    (by decide) (by decide)
  have polished := double_difference_below (mean_score_small perfection.1 perfection.2 features)
    half (by decide) (by decide)
  have simple := double_difference_below (mean_score_small simplicity.1 simplicity.2 features)
    half (by decide) (by decide)
  have orderly := double_difference_below turned (half.mono (by decide)) (by decide) (by decide)
  simp only [BaselineDetector.secondaryTerms, List.forall_mem_cons, List.not_mem_nil, false_implies,
    implies_true, and_true]
  refine ⟨?_, ?_, ?_⟩
  · exact (double_product_below perfectionWeight polished (by decide) (by decide)).mono (by decide)
  · exact (double_product_below simplicityWeight simple (by decide) (by decide)).mono (by decide)
  · exact (double_product_below chaosWeight orderly (by decide) (by decide)).mono (by decide)

/- The votes of the critical features. -/

theorem feature_score_small (c : CriticalFeature Float) (x : Float) :
    SizeBelow 4 (featureScore c x).toModel.unpack := by
  have similarity {y z : Float} (less : y < z) :
      SizeBelow 2 (0.5 * clamp zero one (one - y)).toModel.unpack := by
    have numbers := Bool.or_eq_false_iff.mp (numbers_of_double_lt less)
    have share := clamped_is_share (double_difference_number one_finite numbers.1)
    exact double_product_below half_below (share_size share).2 (by decide) (by decide)
  have half := half_below.mono (k := 2) (by decide)
  simp only [featureScore]
  split
  · exact half.mono (by decide)
  · split
    · rename_i less
      exact double_sum_below half (similarity less) (by decide) (by decide)
    · split
      · rename_i less
        exact double_difference_below half (similarity less) (by decide) (by decide)
      · exact half.mono (by decide)

structure Weighty (w : Float) : Prop where
  leans : Leans .positive w.toModel.unpack
  below : SizeBelow (-2) w.toModel.unpack
  size : SizeFrom (-5) w.toModel.unpack

theorem critical_weighty {p : Profile Float} (documented : p.Documented) {c : CriticalFeature Float}
    (member : c ∈ p.critical) : Weighty c.weight := by
  have few : p.critical.length ≤ schema.length := by
    have distinct := Profile.documented_names_distinct documented
    have known : p.critical.map (·.name) ⊆ schema.map (·.name) := by
      intro name named
      obtain ⟨c, inside, rfl⟩ := List.mem_map.mp named
      obtain ⟨spec, found⟩ :=
        Option.isSome_iff_exists.mp (Profile.documented_names_known documented inside)
      obtain ⟨listed, same⟩ := (lookup_eq_some_iff c.name spec).mp found
      exact List.mem_map.mpr ⟨spec, listed, same⟩
    simpa using (distinct.subperm known).length_le
  have ranks : ∀ rank < schema.length, zero ≤ (rankWeight rank : Float) ∧
      SizeBelow (-2) (rankWeight rank : Float).toModel.unpack ∧
      SizeFrom (-5) (rankWeight rank : Float).toModel.unpack := by decide +kernel
  obtain ⟨rank, kept⟩ := List.mem_iff_getElem?.mp member
  have inRange : rank < p.critical.length := (List.getElem?_eq_some_iff.mp kept).1
  obtain ⟨stats, topCount, -, rfl⟩ := documented
  have placed := Profile.rank_from_at 0 rank ((Profile.ranked stats).take topCount)
  obtain ⟨feature, -, rfl⟩ := Option.map_eq_some_iff.mp (placed.symm.trans kept)
  obtain ⟨above, below, size⟩ := ranks (0 + rank) (by omega)
  exact ⟨(zero_le_iff_leans _).mp above, below, size⟩

namespace BaselineDetector

variable {d : BaselineDetector Float} {features : FeatureVector Float} {p : Profile Float}

theorem mem_critical_terms (documented : p.Documented) {term : Contribution Float}
    (member : term ∈ d.criticalTerms features p) :
    ∃ c ∈ p.critical, ∃ x total, term = d.criticalTerm total c x ∧
      Leans .positive total.toModel.unpack ∧ SizeFrom (-5) total.toModel.unpack := by
  rw [criticalTerms] at member
  simp only at member
  split at member
  · contradiction
  · obtain ⟨⟨c, x⟩, inside, rfl⟩ := List.mem_map.mp member
    have weighty : ∀ w ∈ (present features p).map (·.1.weight), Weighty w := by
      intro w weighs
      obtain ⟨⟨c, y⟩, found, rfl⟩ := List.mem_map.mp weighs
      exact critical_weighty documented (mem_present.mp found).1
    have leans : ∀ w ∈ (present features p).map (·.1.weight), Leans .positive w.toModel.unpack :=
      fun w weighs => (weighty w weighs).leans
    have weighs : c.weight ∈ (present features p).map (·.1.weight) :=
      List.mem_map.mpr ⟨(c, x), inside, rfl⟩
    exact ⟨c, (mem_present.mp inside).1, x, _, rfl, list_sum_leans leans,
      list_sum_from (by decide) leans weighs (weighty c.weight weighs).size⟩

theorem critical_term_sided (weight : Leans .positive d.blend.baseline.toModel.unpack)
    (small : SizeBelow 2 d.blend.baseline.toModel.unpack) {c : CriticalFeature Float}
    (weighty : Weighty c.weight) {total : Float} (leans : Leans .positive total.toModel.unpack)
    (size : SizeFrom (-5) total.toModel.unpack) (x : Float) :
    let term := d.criticalTerm total c x
    SizeBelow 20 term.value.toModel.unpack ∧
      (half ≤ featureScore c x → Leans .positive term.value.toModel.unpack) ∧
      (¬ half ≤ featureScore c x → Leans .negative term.value.toModel.unpack) := by
  intro term
  have score := feature_score_small c x
  have middle := half_below.mono (k := 4) (by decide)
  have margin := double_difference_below score middle (by decide) (by decide)
  have weighed := double_product_below small weighty.below (by decide) (by decide)
  have weighedLeans := double_product_leans weight weighty.leans small.finite weighty.below.finite
  have share := double_quotient_below weighed size (by decide) (by decide)
  have shareLeans := double_quotient_leans weighedLeans weighed.finite leans size
  have value := double_product_below share margin (by decide) (by decide)
  have sides := double_difference_leans score.finite half_positive
  refine ⟨value.mono (by decide), ?_, ?_⟩
  · intro above
    have notLess : ¬ featureScore c x < half := fun less => not_le_of_double_lt less above
    exact double_product_leans shareLeans (sides.2 notLess) share.finite margin.finite
  · intro notAbove
    have less : featureScore c x < half := by
      by_contra notLess
      exact notAbove (double_le_of_not_lt (finite_is_number score.finite)
        (finite_is_number middle.finite) notLess)
    exact double_product_leans shareLeans (sides.1 less) share.finite margin.finite

end BaselineDetector

theorem heuristic_terms_finite {features : FeatureVector Float} (finite : features.Finite) :
    ∀ term ∈ HeuristicDetector.terms features, term.value.isFinite = true := by
  intro term member
  obtain ⟨r, inside, rfl⟩ := List.mem_map.mp member
  exact (Rule.evaluated_small (Rule.rules_sound r inside) finite).finite

theorem BaselineDetector.terms_finite {d : BaselineDetector Float} (weights : ∀ w ∈ d.blend.weights,
      Leans .positive w.toModel.unpack ∧ SizeBelow 2 w.toModel.unpack)
    (features : FeatureVector Float) {profile : Option (Profile Float)}
    (documented : ∀ p ∈ profile, p.Documented) :
    ∀ term ∈ d.terms features profile, term.value.isFinite = true := by
  intro term member
  rw [terms, List.mem_append] at member
  rcases member with critical | secondary
  · cases profile with
    | none => contradiction
    | some p =>
      obtain ⟨c, inside, x, total, rfl, leans, size⟩ :=
        mem_critical_terms (documented p rfl) critical
      obtain ⟨weight, small⟩ := weights d.blend.baseline List.mem_cons_self
      have weighty := critical_weighty (documented p rfl) inside
      exact (critical_term_sided weight small weighty leans size x).1.finite
  · have small := secondary_small d (fun w inside => (weights w inside).2) features
    exact (small term secondary).finite

theorem terms_finite (c : Settings Float) {features : FeatureVector Float}
    (finite : features.Finite) {profile : Option (Profile Float)}
    (documented : ∀ p ∈ profile, p.Documented) (method : Method) :
    ∀ term ∈ c.terms features profile method, term.value.isFinite = true := by
  cases method with
  | heuristic => exact heuristic_terms_finite finite
  | baselineAware =>
    exact BaselineDetector.terms_finite (Blend.repaired_weights_small c.baseline.blend) features
      documented

end Detection

end Authorship
