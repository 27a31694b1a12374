import Authorship.Proofs.ExchangedMeans

/-
The score of one value against the two means of a critical feature. It sees the value only through
its position, which is zero at the human mean and one at the machine's, whichever is the larger. As
a function of the position the score goes up from zero to one with a jump half way, and outside the
two means it falls back to one half within a unit.
-/
namespace Authorship.Detection

open Baseline Scalar

def position (c : CriticalFeature Rat) (x : Rat) : Rat :=
  (x - c.humanMean) / (c.aiMean - c.humanMean)

/- One at distance zero and nothing from distance one on. -/
def similarity (distance : Rat) : Rat := max 0 (1 - distance)

def scoreAt (u : Rat) : Rat :=
  if 1 / 2 < u then 1 / 2 + 1 / 2 * similarity |u - 1|
  else if u < 1 / 2 then 1 / 2 - 1 / 2 * similarity |u|
  else 1 / 2

theorem similarity_nonneg (distance : Rat) : 0 ≤ similarity distance := le_max_left _ _

theorem similarity_at_most {distance : Rat} (nonneg : 0 ≤ distance) : similarity distance ≤ 1 := by
  apply max_le zero_le_one
  linarith

theorem similarity_inside {distance : Rat} (atMost : distance ≤ 1) :
    similarity distance = 1 - distance := by
  apply max_eq_right
  linarith

theorem similarity_positive (distance : Rat) : 0 < similarity distance ↔ distance < 1 := by
  unfold similarity
  rw [lt_max_iff]
  constructor
  · intro positive
    rcases positive with absurdity | inside
    · exact absurd absurdity (lt_irrefl 0)
    · exact sub_pos.mp inside
  · intro inside
    exact Or.inr (sub_pos.mpr inside)

/- Half way the two ends are equally far. -/

theorem nearer_one (u : Rat) : |u - 1| < |u| ↔ 1 / 2 < u := by
  rw [← sq_lt_sq]
  constructor
  · intro nearer
    linarith
  · intro past
    linarith

theorem nearer_zero (u : Rat) : |u| < |u - 1| ↔ u < 1 / 2 := by
  rw [← sq_lt_sq]
  constructor
  · intro nearer
    linarith
  · intro before
    linarith

/- The laws of the score at a position. -/

theorem score_at_within (u : Rat) : 0 ≤ scoreAt u ∧ scoreAt u ≤ 1 := by
  unfold scoreAt
  split
  · have low := similarity_nonneg |u - 1|
    have high := similarity_at_most (abs_nonneg (u - 1))
    constructor <;> linarith
  · split
    · have low := similarity_nonneg |u|
      have high := similarity_at_most (abs_nonneg u)
      constructor <;> linarith
    · norm_num

theorem score_at_inside {u : Rat} (nonneg : 0 ≤ u) (atMost : u ≤ 1) :
    scoreAt u = if 1 / 2 < u then 1 / 2 + u / 2 else if u < 1 / 2 then u / 2 else 1 / 2 := by
  have toOne : |u - 1| = 1 - u := by
    rw [abs_sub_comm]
    exact abs_of_nonneg (sub_nonneg.mpr atMost)
  have after : 1 / 2 + 1 / 2 * (1 - (1 - u)) = 1 / 2 + u / 2 := by ring
  have before : 1 / 2 - 1 / 2 * (1 - u) = u / 2 := by ring
  unfold scoreAt
  rw [toOne, abs_of_nonneg nonneg, similarity_inside (sub_le_self 1 nonneg),
    similarity_inside atMost, after, before]

theorem score_at_mono {u v : Rat} (nonneg : 0 ≤ u) (le : u ≤ v) (atMost : v ≤ 1) :
    scoreAt u ≤ scoreAt v := by
  rw [score_at_inside nonneg (le.trans atMost), score_at_inside (nonneg.trans le) atMost]
  -- The jump half way goes up on both sides.
  split
  · rename_i past
    rw [if_pos (past.trans_le le)]
    linarith
  · split
    · split
      · linarith
      · split <;> linarith
    · rename_i notPast notBefore
      have notBefore' : ¬ v < 1 / 2 := fun before => notBefore (le.trans_lt before)
      rw [if_neg notBefore']
      split <;> linarith

theorem score_at_above_half (u : Rat) : 1 / 2 < scoreAt u ↔ 1 / 2 < u ∧ |u - 1| < 1 := by
  unfold scoreAt
  split
  · rename_i past
    rw [← similarity_positive]
    constructor
    · intro above
      exact ⟨past, by linarith⟩
    · intro similar
      linarith [similar.2]
  · rename_i notPast
    constructor
    · intro above
      have most := similarity_nonneg |u|
      split at above <;> linarith
    · intro past
      exact absurd past.1 notPast

/- The score of a value is that of its position. -/

variable {c : CriticalFeature Rat}

theorem exact_spread (c : CriticalFeature Rat) : c.spread = |c.aiMean - c.humanMean| := exact_abs _

theorem spread_of_differ (differ : c.aiMean ≠ c.humanMean) : 0 < c.spread := by
  rw [exact_spread]
  exact abs_pos.mpr (sub_ne_zero.mpr differ)

theorem human_distance (c : CriticalFeature Rat) (x : Rat) :
    |x - c.humanMean| / c.spread = |position c x| := by
  rw [exact_spread, position, abs_div]

theorem ai_distance (differ : c.aiMean ≠ c.humanMean) (x : Rat) :
    |x - c.aiMean| / c.spread = |position c x - 1| := by
  have apart : c.aiMean - c.humanMean ≠ 0 := sub_ne_zero.mpr differ
  have further : position c x - 1 = (x - c.aiMean) / (c.aiMean - c.humanMean) := by
    unfold position
    rw [div_sub_one apart, sub_sub_sub_cancel_right]
  rw [exact_spread, further, abs_div]

theorem score_of_position (differ : c.aiMean ≠ c.humanMean) (x : Rat) :
    featureScore c x = scoreAt (position c x) := by
  have apart := spread_of_differ differ
  have clamped {distance : Rat} (nonneg : 0 ≤ distance) :
      min 1 (max 0 (1 - distance)) = similarity distance :=
    min_eq_right (similarity_at_most nonneg)
  have nearerAi : |x - c.aiMean| < |x - c.humanMean| ↔ 1 / 2 < position c x := by
    rw [← div_lt_div_iff_of_pos_right apart, ai_distance differ, human_distance, nearer_one]
  have nearerHuman : |x - c.humanMean| < |x - c.aiMean| ↔ position c x < 1 / 2 := by
    rw [← div_lt_div_iff_of_pos_right apart, ai_distance differ, human_distance, nearer_zero]
  rw [exact_feature_score apart, ai_distance differ, human_distance, clamped (abs_nonneg _),
    clamped (abs_nonneg _)]
  simp only [nearerAi, nearerHuman]
  rfl

/- Without a gap between the means there is nothing to tell. -/
theorem score_without_gap (same : c.aiMean = c.humanMean) (x : Rat) : featureScore c x = 1 / 2 := by
  have closed : c.spread ≤ zero := by
    rw [exact_spread, same, sub_self, abs_zero]
    exact le_refl 0
  unfold featureScore
  rw [if_pos closed]
  exact exact_half

theorem feature_score_within (c : CriticalFeature Rat) (x : Rat) :
    0 ≤ featureScore c x ∧ featureScore c x ≤ 1 := by
  by_cases same : c.aiMean = c.humanMean
  · rw [score_without_gap same]
    norm_num
  · rw [score_of_position same]
    exact score_at_within (position c x)

end Authorship.Detection

namespace Authorship.Baseline

/- The means in other units and from another origin. -/
def CriticalFeature.rescaled (c : CriticalFeature Rat) (scale shift : Rat) : CriticalFeature Rat :=
  { c with aiMean := scale * c.aiMean + shift, humanMean := scale * c.humanMean + shift }

end Authorship.Baseline

namespace Authorship.Detection

open Baseline Scalar

variable {c : CriticalFeature Rat}

theorem position_rescaled (c : CriticalFeature Rat) {scale : Rat} (nonzero : scale ≠ 0)
    (shift x : Rat) : position (c.rescaled scale shift) (scale * x + shift) = position c x := by
  change (scale * x + shift - (scale * c.humanMean + shift)) /
    (scale * c.aiMean + shift - (scale * c.humanMean + shift)) = _
  rw [add_sub_add_right_eq_sub, add_sub_add_right_eq_sub, ← mul_sub, ← mul_sub,
    mul_div_mul_left _ _ nonzero]
  rfl

theorem score_rescaled (differ : c.aiMean ≠ c.humanMean) {scale : Rat} (nonzero : scale ≠ 0)
    (shift x : Rat) :
    featureScore (c.rescaled scale shift) (scale * x + shift) = featureScore c x := by
  have differ' : (c.rescaled scale shift).aiMean ≠ (c.rescaled scale shift).humanMean := by
    intro same
    exact differ (mul_left_cancel₀ nonzero (add_right_cancel same))
  rw [score_of_position differ', score_of_position differ, position_rescaled c nonzero]

theorem score_rises_upwards (above : c.humanMean < c.aiMean) {x y : Rat}
    (first : c.humanMean ≤ x) (le : x ≤ y) (last : y ≤ c.aiMean) :
    featureScore c x ≤ featureScore c y := by
  have apart : 0 < c.aiMean - c.humanMean := sub_pos.mpr above
  rw [score_of_position above.ne', score_of_position above.ne']
  apply score_at_mono
  · exact div_nonneg (sub_nonneg.mpr first) apart.le
  · exact div_le_div_of_nonneg_right (sub_le_sub_right le _) apart.le
  · exact (div_le_one apart).mpr (sub_le_sub_right last _)

/- On the way from the human mean to the machine's, `y` comes no earlier than `x`. -/
def OnTheWay (c : CriticalFeature Rat) (x y : Rat) : Prop :=
  c.humanMean ≤ x ∧ x ≤ y ∧ y ≤ c.aiMean ∨ c.aiMean ≤ y ∧ y ≤ x ∧ x ≤ c.humanMean

theorem score_rises (differ : c.aiMean ≠ c.humanMean) {x y : Rat} (way : OnTheWay c x y) :
    featureScore c x ≤ featureScore c y := by
  rcases way with ⟨first, le, last⟩ | ⟨last, le, first⟩
  · have above : c.humanMean < c.aiMean := lt_of_le_of_ne (first.trans (le.trans last)) differ.symm
    exact score_rises_upwards above first le last
  · -- With the means exchanged this is the way back.
    have below : c.aiMean < c.humanMean := lt_of_le_of_ne (last.trans (le.trans first)) differ
    have back : featureScore c.turned y ≤ featureScore c.turned x :=
      score_rises_upwards (c := c.turned) below last le first
    have apart := spread_of_differ differ
    rw [score_of_turned apart, score_of_turned apart] at back
    exact (sub_le_sub_iff_left 1).mp back

theorem score_favours_ai (differ : c.aiMean ≠ c.humanMean) (x : Rat) :
    1 / 2 < featureScore c x ↔
      |x - c.aiMean| < |x - c.humanMean| ∧ |x - c.aiMean| < c.spread := by
  have apart := spread_of_differ differ
  rw [score_of_position differ, score_at_above_half, ← nearer_one, ← ai_distance differ,
    ← human_distance, div_lt_div_iff_of_pos_right apart, div_lt_one apart]

/- What it means that a feature is scored by nearness to its two means. -/
structure ScoredByNearness (c : CriticalFeature Rat) : Prop where
  within : ∀ x, 0 ≤ featureScore c x ∧ featureScore c x ≤ 1
  atAiMean : featureScore c c.aiMean = 1
  atHumanMean : featureScore c c.humanMean = 0
  exchanged : ∀ x, featureScore c.turned x = 1 - featureScore c x
  rescaled : ∀ scale shift x, scale ≠ 0 →
    featureScore (c.rescaled scale shift) (scale * x + shift) = featureScore c x
  rising : ∀ x y, OnTheWay c x y → featureScore c x ≤ featureScore c y
  favoured : ∀ x, 1 / 2 < featureScore c x ↔
    |x - c.aiMean| < |x - c.humanMean| ∧ |x - c.aiMean| < c.spread

/-- A feature with two different means is scored by nearness to them. -/
theorem distinct_means_score_by_nearness (c : CriticalFeature Rat)
    (differ : c.aiMean ≠ c.humanMean) : ScoredByNearness c := by
  have apart := spread_of_differ differ
  constructor
  · intro x
    exact feature_score_within c x
  · exact score_at_ai_mean apart
  · exact score_at_human_mean apart
  · intro x
    exact score_of_turned apart x
  · intro scale shift x nonzero
    exact score_rescaled differ nonzero shift x
  · intro x y way
    exact score_rises differ way
  · intro x
    exact score_favours_ai differ x

/- Generic names are the mark of a human, so this feature is the larger one at the human mean. -/
def genericShare : CriticalFeature Rat := Profile.criticalAt 0 "naming.generic_var_ratio" 0.1 0.5

theorem generic_share_scored :
    genericShare.aiMean ≠ genericShare.humanMean ∧ ScoredByNearness genericShare ∧
      featureScore genericShare 0.2 = 7 / 8 ∧ featureScore genericShare 0.3 = 1 / 2 ∧
      featureScore genericShare 0.31 < featureScore genericShare 0.29 := by
  have differ : genericShare.aiMean ≠ genericShare.humanMean := by decide +kernel
  exact ⟨differ, distinct_means_score_by_nearness genericShare differ, by decide +kernel,
    by decide +kernel, by decide +kernel⟩

end Authorship.Detection
