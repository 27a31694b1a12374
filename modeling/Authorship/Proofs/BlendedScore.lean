import Authorship.Proofs.FeatureScores
import Authorship.Proofs.ScoreAtMeans

/-
The score against a baseline as one weighted mean. It is summed from signed terms around one half,
with the weights of the votes divided by the sum of those that are there. Where the four weights of
the blend sum to one, the halves cancel, whatever features the vector lacks and whether or not there
is a profile, and a mean of four numbers from zero to one needs no clamp.
-/
namespace Authorship.Detection

open Baseline Scalar

/- A detector has no negative weights, however its blend was given. -/

theorem valid_weights_nonneg {b : Blend Rat} (valid : b.isValid = true) :
    ∀ w ∈ b.weights, 0 ≤ w := by
  unfold Blend.isValid at valid
  rw [Bool.and_eq_true, List.all_eq_true] at valid
  intro w member
  exact of_decide_eq_true (valid.1 w member)

theorem normalized_weights_nonneg (b : Blend Rat) : ∀ w ∈ b.normalize.weights, 0 ≤ w := by
  unfold Blend.normalize
  split
  · decide +kernel
  · rename_i divisible
    rw [Bool.or_eq_true, not_or, List.any_eq_true, decide_eq_true_iff] at divisible
    obtain ⟨noneNegative, positive⟩ := divisible
    have nonneg : ∀ w ∈ b.weights, 0 ≤ w := by
      intro w member
      apply not_lt.mp
      intro negative
      apply noneNegative
      exact ⟨w, member, Bool.or_eq_true_iff.mpr (Or.inr (decide_eq_true negative))⟩
    have total : 0 ≤ b.total := (not_le.mp positive).le
    simp only [Blend.weights, List.forall_mem_cons] at nonneg ⊢
    obtain ⟨baseline, perfection, simplicity, chaos, -⟩ := nonneg
    exact ⟨div_nonneg baseline total, div_nonneg perfection total, div_nonneg simplicity total,
      div_nonneg chaos total, by simp⟩

theorem repaired_weights_nonneg (b : Blend Rat) : ∀ w ∈ b.repair.weights, 0 ≤ w := by
  unfold Blend.repair
  split
  · rename_i valid
    exact valid_weights_nonneg valid
  · exact normalized_weights_nonneg b

namespace BaselineDetector

theorem vote_mean_within {features : FeatureVector Rat} {p : Profile Rat}
    (positive : ∀ c ∈ p.critical, 0 < c.weight) :
    0 ≤ voteMean features p ∧ voteMean features p ≤ 1 := by
  unfold voteMean
  split
  · norm_num
  · rename_i some
    have total := total_weight_positive positive some
    have weight : ∀ entry ∈ present features p, 0 ≤ entry.1.weight := by
      intro entry member
      exact (positive entry.1 (mem_present.mp member).1).le
    have low : 0 ≤ ((present features p).map fun entry =>
        entry.1.weight * featureScore entry.1 entry.2).sum := by
      apply List.sum_nonneg
      intro vote member
      obtain ⟨entry, inside, rfl⟩ := List.mem_map.mp member
      exact mul_nonneg (weight entry inside) (feature_score_within entry.1 entry.2).1
    have high : ((present features p).map fun entry =>
        entry.1.weight * featureScore entry.1 entry.2).sum ≤ totalWeight features p := by
      apply List.sum_le_sum
      intro entry member
      exact mul_le_of_le_one_right (weight entry member) (feature_score_within entry.1 entry.2).2
    constructor
    · exact div_nonneg low total.le
    · exact (div_le_one total).mpr high

theorem empty_weights_positive : ∀ c ∈ (Profile.empty : Profile Rat).critical, 0 < c.weight := by
  intro c member
  exact absurd member List.not_mem_nil

/- No profile is like one without critical features. -/
theorem terms_without_profile (d : BaselineDetector Rat) (features : FeatureVector Rat) :
    d.terms features none = d.terms features (some .empty) := by
  have noVotes : d.criticalTerms features Profile.empty = [] :=
    critical_terms_eq d empty_weights_positive
  unfold terms
  simp only [Option.map_none, Option.getD_none, Option.map_some, Option.getD_some, noVotes]

/- What the critical features say together: the mean of their scores by weight over those that the
vector has, and one half if it has none of them or there is no profile. -/
def votes (features : FeatureVector Rat) : Option (Profile Rat) → Rat
  | some p => voteMean features p
  | none => 1 / 2

end BaselineDetector

section

variable {d : BaselineDetector Rat} {profile : Option (Profile Rat)} (features : FeatureVector Rat)

theorem votes_within (positive : ∀ p ∈ profile, ∀ c ∈ p.critical, 0 < c.weight) :
    0 ≤ BaselineDetector.votes features profile ∧
      BaselineDetector.votes features profile ≤ 1 := by
  cases profile with
  | none =>
    unfold BaselineDetector.votes
    norm_num
  | some p => exact BaselineDetector.vote_mean_within (positive p rfl)

theorem raw_score_is_blend (convex : d.blend.Convex)
    (positive : ∀ p ∈ profile, ∀ c ∈ p.critical, 0 < c.weight) :
    rawScore (d.terms features profile) =
      d.blend.baseline * BaselineDetector.votes features profile +
        d.blend.others (.measure features) := by
  cases profile with
  | none =>
    rw [d.terms_without_profile,
      raw_score_of_convex convex BaselineDetector.empty_weights_positive]
    rfl
  | some p => exact raw_score_of_convex convex (positive p rfl)

theorem raw_score_within (convex : d.blend.Convex)
    (positive : ∀ p ∈ profile, ∀ c ∈ p.critical, 0 < c.weight) :
    0 ≤ rawScore (d.terms features profile) ∧ rawScore (d.terms features profile) ≤ 1 := by
  have baseline := product_within convex.baseline (votes_within features positive)
  have others := others_within convex (sub_scores_within features)
  rw [raw_score_is_blend features convex positive]
  constructor <;> linarith

end

/-- If the weights that a detector has sum to one, its score is the mean by these weights of four
signals: the votes of the critical features, the two of polish and simplicity, and irregularity
turned around. All of them are from zero to one, and nothing is cut off. There may be no profile;
one that there is was made from statistics, which may be empty. -/
theorem score_is_weighted_mean (stats : Option (Stats Rat)) (topCount : Nat)
    (thresholds : Thresholds Rat) (blend : Blend Rat) (maxReasons : Nat)
    {features : FeatureVector Rat} (usable : Usable features)
    (summing : (BaselineDetector.make thresholds blend maxReasons).blend.total = 1) :
    let d := BaselineDetector.make thresholds blend maxReasons
    let profile := stats.map (Profile.ofStats · topCount)
    let w := d.blend
    let votes := BaselineDetector.votes features profile
    let sub : SubScores Rat := .measure features
    let blended := w.baseline * votes + w.perfection * sub.perfection +
      w.simplicity * sub.simplicity + w.chaos * (1 - sub.chaos)
    (d.detect features profile).score = blended ∧ rawScore (d.terms features profile) = blended ∧
      (0 ≤ votes ∧ votes ≤ 1) ∧ sub.Within := by
  intro d profile w votes sub blended
  have convex : w.Convex := convex_of_weights (repaired_weights_nonneg blend) summing
  have positive : ∀ p ∈ profile, ∀ c ∈ p.critical, 0 < c.weight := by
    intro p member
    obtain ⟨s, -, rfl⟩ := Option.mem_map.mp member
    exact critical_weights_positive s topCount
  have raw : rawScore (d.terms features profile) = blended := by
    rw [raw_score_is_blend features convex positive, Blend.others]
    ring
  have within := raw_score_within features convex positive
  have scored : (d.detect features profile).score = blended := by
    rw [d.detect_usable usable, ← raw]
    change clampScore (rawScore (d.terms features profile)) = _
    rw [exact_score, max_eq_right within.1, min_eq_right within.2]
  exact ⟨scored, raw, votes_within features positive, sub_scores_within features⟩

/- Of the two critical features this vector has one. -/
def commentsOnly : FeatureVector Rat :=
  .ofList [("basic.loc", 12), ("basic.comment_ratio", 0.051), ("naming.generic_var_ratio", 0.3)]

/- These weights sum to ten. -/
def unscaled : Blend Rat := ⟨5, 2, 1, 2⟩

theorem comments_score_blended :
    Usable commentsOnly ∧
      let d := BaselineDetector.make BaselineDetector.defaultThresholds unscaled 6
      let profile := some (Profile.ofStats commentsAndBranches 15)
      d.blend.total = 1 ∧ (d.detect commentsOnly profile).score = 267 / 400 ∧
        rawScore (d.terms commentsOnly profile) = 267 / 400 := by
  have usable : Usable commentsOnly := (signal_iff_usable _).mp (by decide +kernel)
  have summing : (BaselineDetector.make BaselineDetector.defaultThresholds unscaled 6).blend.total =
      1 := by decide +kernel
  obtain ⟨scored, raw, -, -⟩ := score_is_weighted_mean (some commentsAndBranches) 15
    BaselineDetector.defaultThresholds unscaled 6 usable summing
  refine ⟨usable, summing, scored.trans ?_, raw.trans ?_⟩
  · decide +kernel
  · decide +kernel

end Authorship.Detection
