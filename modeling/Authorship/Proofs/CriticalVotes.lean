import Authorship.Proofs.Ranking
import Authorship.Proofs.Verdicts
import Mathlib.Algebra.BigOperators.Ring.List
import Mathlib.Algebra.Order.BigOperators.Group.List

/-
The votes of the critical features in exact arithmetic. Their weights are divided by the sum of the
weights that are there, so together the votes count as one signal whatever features a vector has.
-/
namespace Authorship.Detection

open Baseline Scalar

theorem exact_feature_score {c : CriticalFeature Rat} (apart : 0 < c.spread) (x : Rat) :
    featureScore c x =
      if |x - c.aiMean| < |x - c.humanMean| then
        1 / 2 + 1 / 2 * min 1 (max 0 (1 - |x - c.aiMean| / c.spread))
      else if |x - c.humanMean| < |x - c.aiMean| then
        1 / 2 - 1 / 2 * min 1 (max 0 (1 - |x - c.humanMean| / c.spread))
      else 1 / 2 := by
  have nearer (a b : Rat) : a / c.spread < b / c.spread ↔ a < b := div_lt_div_iff_of_pos_right apart
  have literal : (Scalar.toOfScientific.ofScientific 5 true 1 : Rat) = 1 / 2 := exact_half
  simp only [featureScore, exact_zero, exact_one, exact_clamp, exact_abs, exact_half, literal,
    nearer, if_neg (not_le.mpr apart)]

theorem score_at_ai_mean {c : CriticalFeature Rat} (apart : 0 < c.spread) :
    featureScore c c.aiMean = 1 := by
  have far : 0 < |c.aiMean - c.humanMean| := by rwa [← exact_abs]
  rw [exact_feature_score apart, sub_self, abs_zero, if_pos far, zero_div, sub_zero,
    max_eq_right zero_le_one, min_self]
  norm_num

theorem score_at_human_mean {c : CriticalFeature Rat} (apart : 0 < c.spread) :
    featureScore c c.humanMean = 0 := by
  have far : 0 < |c.humanMean - c.aiMean| := by rwa [abs_sub_comm, ← exact_abs]
  rw [exact_feature_score apart, sub_self, abs_zero, if_neg (not_lt.mpr far.le), if_pos far,
    zero_div, sub_zero, max_eq_right zero_le_one, min_self]
  norm_num

namespace BaselineDetector

theorem mem_present {α : Type} [Scalar α] {features : FeatureVector α} {p : Profile α}
    {c : CriticalFeature α} {x : α} :
    (c, x) ∈ present features p ↔ c ∈ p.critical ∧ features.get? c.name = some x := by
  simp only [present, List.mem_filterMap, Option.map_eq_some_iff, Prod.mk.injEq]
  constructor
  · rintro ⟨c', member, x', found, rfl, rfl⟩
    exact ⟨member, found⟩
  · rintro ⟨member, found⟩
    exact ⟨c, member, x, found, rfl, rfl⟩

theorem present_names {α : Type} [Scalar α] (features : FeatureVector α) (p : Profile α) :
    (present features p).map (·.1.name) =
      (p.critical.map (·.name)).filter (features.contains ·) := by
  rw [present]
  induction p.critical with
  | nil => rfl
  | cons c rest ih =>
    have contains : features.contains c.name = (features.get? c.name).isSome := rfl
    rw [List.filterMap_cons, List.map_cons, List.filter_cons, contains]
    cases features.get? c.name with
    | none => simpa using ih
    | some x => simpa using ih

def totalWeight (features : FeatureVector Rat) (p : Profile Rat) : Rat :=
  ((present features p).map (·.1.weight)).sum

theorem total_weight_positive {features : FeatureVector Rat} {p : Profile Rat}
    (positive : ∀ c ∈ p.critical, 0 < c.weight) (some : present features p ≠ []) :
    0 < totalWeight features p := by
  apply List.sum_pos
  · intro w member
    obtain ⟨⟨c, x⟩, inside, rfl⟩ := List.mem_map.mp member
    exact positive c (mem_present.mp inside).1
  · simpa using some

theorem critical_terms_eq (d : BaselineDetector Rat) {features : FeatureVector Rat}
    {p : Profile Rat} (positive : ∀ c ∈ p.critical, 0 < c.weight) :
    d.criticalTerms features p =
      (present features p).map fun entry =>
        d.criticalTerm (totalWeight features p) entry.1 entry.2 := by
  have total : sum ((present features p).map fun (c, _) => c.weight) = totalWeight features p :=
    exact_sum _
  simp only [criticalTerms, total]
  by_cases some : present features p = []
  · rw [some]
    split <;> rfl
  · exact if_neg (not_le.mpr (total_weight_positive positive some))

theorem critical_keys (d : BaselineDetector Rat) (features : FeatureVector Rat) {p : Profile Rat}
    (positive : ∀ c ∈ p.critical, 0 < c.weight) :
    (d.criticalTerms features p).map (·.key) =
      (p.critical.map (·.name)).filter (features.contains ·) := by
  rw [critical_terms_eq d positive, ← present_names, List.map_map]
  rfl

/- The mean of the scores of the critical features that a vector has, one half if it has none. -/
def voteMean (features : FeatureVector Rat) (p : Profile Rat) : Rat :=
  if present features p = [] then 1 / 2
  else ((present features p).map fun entry => entry.1.weight * featureScore entry.1 entry.2).sum /
    totalWeight features p

theorem vote_mean_of_scores {features : FeatureVector Rat} {p : Profile Rat} {score : Rat}
    (positive : ∀ c ∈ p.critical, 0 < c.weight) (some : present features p ≠ [])
    (same : ∀ entry ∈ present features p, featureScore entry.1 entry.2 = score) :
    voteMean features p = score := by
  have total := total_weight_positive positive some
  have scored : ((present features p).map fun entry =>
        entry.1.weight * featureScore entry.1 entry.2) =
      (present features p).map fun entry => entry.1.weight * score := by
    apply List.map_congr_left
    intro entry member
    rw [same entry member]
  rw [voteMean, if_neg some, scored, List.sum_map_mul_right, ← totalWeight,
    mul_div_cancel_left₀ _ total.ne']

theorem weighed_votes (b total : Rat) (found : List (CriticalFeature Rat × Rat)) :
    (found.map fun entry =>
        b * entry.1.weight / total * (featureScore entry.1 entry.2 - 1 / 2)).sum =
      b * ((found.map fun entry => entry.1.weight * featureScore entry.1 entry.2).sum / total -
        1 / 2 * ((found.map (·.1.weight)).sum / total)) := by
  induction found with
  | nil => simp
  | cons entry rest ih =>
    simp only [List.map_cons, List.sum_cons, ih]
    ring

theorem votes_sum (d : BaselineDetector Rat) {features : FeatureVector Rat} {p : Profile Rat}
    (positive : ∀ c ∈ p.critical, 0 < c.weight) :
    ((d.criticalTerms features p).map (·.value)).sum =
      d.blend.baseline * (voteMean features p - 1 / 2) := by
  rw [critical_terms_eq d positive, List.map_map, voteMean]
  by_cases some : present features p = []
  · simp [some]
  · have total := total_weight_positive positive some
    have values := weighed_votes d.blend.baseline (totalWeight features p) (present features p)
    have whole : ((present features p).map (·.1.weight)).sum / totalWeight features p = 1 :=
      div_self total.ne'
    rw [whole] at values
    rw [if_neg some, ← mul_one (1 / 2 : Rat), ← values, ← exact_half]
    rfl

/- The score before clamping, with the halves of the four signals taken together. -/
theorem raw_score_blends (d : BaselineDetector Rat) {features : FeatureVector Rat}
    {p : Profile Rat} (positive : ∀ c ∈ p.critical, 0 < c.weight) :
    let sub : SubScores Rat := .measure features
    rawScore (d.terms features (some p)) =
      1 / 2 * (1 - d.blend.total) + d.blend.baseline * voteMean features p +
        d.blend.perfection * sub.perfection + d.blend.simplicity * sub.simplicity +
        d.blend.chaos * (1 - sub.chaos) := by
  intro sub
  have secondary : ((d.secondaryTerms sub).map (·.value)).sum =
      d.blend.perfection * (sub.perfection - 1 / 2) +
        d.blend.simplicity * (sub.simplicity - 1 / 2) +
        d.blend.chaos * (1 - sub.chaos - 1 / 2) := by
    simp only [secondaryTerms, List.map_cons, List.map_nil, List.sum_cons, List.sum_nil,
      exact_half, exact_one]
    ring
  have all : d.terms features (some p) = d.criticalTerms features p ++ d.secondaryTerms sub := rfl
  rw [exact_raw_score, all, List.map_append, List.sum_append, votes_sum d positive, secondary,
    Blend.total]
  ring

end BaselineDetector

end Authorship.Detection
