import Authorship.Proofs.CriticalVotes

/-
What the score is worth at the means. There the votes of the critical features are all on one end,
and the three other signals, each from zero to one, can take away no more than their weights.
-/
namespace Authorship.Detection

open Baseline Scalar

theorem mean_within {xs : List Rat} (some : xs ≠ []) (within : ∀ x ∈ xs, 0 ≤ x ∧ x ≤ 1) :
    0 ≤ mean xs ∧ mean xs ≤ 1 := by
  have count : (0 : Rat) < xs.length := by
    exact_mod_cast List.length_pos_iff.mpr some
  have low : 0 ≤ xs.sum := List.sum_nonneg fun x member => (within x member).1
  have high : xs.sum ≤ xs.length := by
    have bounded := List.sum_le_card_nsmul xs 1 fun x member => (within x member).2
    rwa [nsmul_one] at bounded
  rw [mean, exact_sum, exact_count]
  exact ⟨div_nonneg low count.le, (div_le_one count).mpr high⟩

theorem grade_within {i : Indicator Rat} (lenient : 0 ≤ i.lenientScore ∧ i.lenientScore ≤ 1)
    (x : Rat) : 0 ≤ i.grade x ∧ i.grade x ≤ 1 := by
  rw [Indicator.grade]
  split
  · exact ⟨zero_le_one, le_refl 1⟩
  · split
    · exact lenient
    · exact ⟨le_refl 0, zero_le_one⟩

theorem mean_score_within {indicators : List (Indicator Rat)}
    (lenient : ∀ i ∈ indicators, 0 ≤ i.lenientScore ∧ i.lenientScore ≤ 1)
    (features : FeatureVector Rat) :
    0 ≤ meanScore indicators features ∧ meanScore indicators features ≤ 1 := by
  simp only [meanScore]
  split
  · rw [exact_half]
    norm_num
  · rename_i some
    apply mean_within
    · simpa using some
    · intro score member
      obtain ⟨i, inside, scored⟩ := List.mem_filterMap.mp member
      rw [Indicator.score?] at scored
      split at scored
      · obtain ⟨x, -, rfl⟩ := Option.map_eq_some_iff.mp scored
        exact grade_within (lenient i inside) x
      · contradiction

structure SubScores.Within (sub : SubScores Rat) : Prop where
  perfection : 0 ≤ sub.perfection ∧ sub.perfection ≤ 1
  simplicity : 0 ≤ sub.simplicity ∧ sub.simplicity ≤ 1
  chaos : 0 ≤ sub.chaos ∧ sub.chaos ≤ 1

/- Turned around, as the score has it. -/
theorem order_within {sub : SubScores Rat} (bounded : sub.Within) :
    0 ≤ 1 - sub.chaos ∧ 1 - sub.chaos ≤ 1 :=
  ⟨sub_nonneg.mpr bounded.chaos.2, sub_le_self 1 bounded.chaos.1⟩

theorem sub_scores_within (features : FeatureVector Rat) : (SubScores.measure features).Within :=
  ⟨mean_score_within (by decide +kernel) features, mean_score_within (by decide +kernel) features,
    mean_score_within (by decide +kernel) features⟩

structure Blend.Convex (b : Blend Rat) : Prop where
  baseline : 0 ≤ b.baseline
  perfection : 0 ≤ b.perfection
  simplicity : 0 ≤ b.simplicity
  chaos : 0 ≤ b.chaos
  total : b.total = 1

theorem convex_of_weights {b : Blend Rat} (nonneg : ∀ w ∈ b.weights, 0 ≤ w)
    (total : b.total = 1) : b.Convex := by
  simp only [Blend.weights, List.forall_mem_cons] at nonneg
  obtain ⟨baseline, perfection, simplicity, chaos, -⟩ := nonneg
  exact ⟨baseline, perfection, simplicity, chaos, total⟩

theorem repair_of_nonneg {b : Blend Rat} (total : b.total = 1) (nonneg : ∀ w ∈ b.weights, 0 ≤ w) :
    b.repair = b := by
  have valid : b.isValid = true := by
    rw [Blend.isValid, Bool.and_eq_true, List.all_eq_true, total]
    exact ⟨fun w member => decide_eq_true (nonneg w member), by decide +kernel⟩
  rw [Blend.repair, if_pos valid]

/- Weights that sum to one but are not all weights are not kept. -/
theorem repair_of_negative {b : Blend Rat} (negative : ¬ ∀ w ∈ b.weights, 0 ≤ w) :
    b.repair = .default := by
  have invalid : ¬ b.isValid = true := by
    rw [Blend.isValid, Bool.and_eq_true, List.all_eq_true]
    intro valid
    exact negative fun w member => of_decide_eq_true (valid.1 w member)
  have refused : (b.weights.any fun w => !isFinite w || w < zero) = true := by
    rw [List.any_eq_true]
    obtain ⟨w, member, below⟩ : ∃ w ∈ b.weights, w < 0 := by
      by_contra none
      refine negative fun w member => not_lt.mp fun below => none ⟨w, member, below⟩
    exact ⟨w, member, Bool.or_eq_true_iff.mpr (Or.inr (decide_eq_true below))⟩
  rw [Blend.repair, if_neg invalid, Blend.normalize,
    if_pos (Bool.or_eq_true_iff.mpr (Or.inl refused))]

theorem default_convex : (Blend.default : Blend Rat).Convex :=
  convex_of_weights (by decide +kernel) (by decide +kernel)

theorem repair_convex {b : Blend Rat} (total : b.total = 1) : b.repair.Convex := by
  by_cases nonneg : ∀ w ∈ b.weights, 0 ≤ w
  · rw [repair_of_nonneg total nonneg]
    exact convex_of_weights nonneg total
  · rw [repair_of_negative nonneg]
    exact default_convex

/- What the other signals give, each with its weight. -/
def Blend.others (b : Blend Rat) (sub : SubScores Rat) : Rat :=
  b.perfection * sub.perfection + b.simplicity * sub.simplicity + b.chaos * (1 - sub.chaos)

theorem product_within {w x : Rat} (nonneg : 0 ≤ w) (within : 0 ≤ x ∧ x ≤ 1) :
    0 ≤ w * x ∧ w * x ≤ w :=
  ⟨mul_nonneg nonneg within.1, mul_le_of_le_one_right nonneg within.2⟩

theorem others_within {b : Blend Rat} (convex : b.Convex) {sub : SubScores Rat}
    (bounded : sub.Within) : 0 ≤ b.others sub ∧ b.others sub ≤ 1 - b.baseline := by
  have total := convex.total
  rw [Blend.total] at total
  have perfection := product_within convex.perfection bounded.perfection
  have simplicity := product_within convex.simplicity bounded.simplicity
  have chaos := product_within convex.chaos (order_within bounded)
  rw [Blend.others]
  constructor <;> linarith

/- The score of four signals that are weighed so. -/

section

variable {d : BaselineDetector Rat} {features : FeatureVector Rat} {p : Profile Rat} {votes : Rat}

theorem raw_score_of_convex (convex : d.blend.Convex)
    (positive : ∀ c ∈ p.critical, 0 < c.weight) :
    rawScore (d.terms features (some p)) =
      d.blend.baseline * BaselineDetector.voteMean features p +
        d.blend.others (.measure features) := by
  rw [d.raw_score_blends positive, convex.total, Blend.others]
  ring

theorem blended_score (convex : d.blend.Convex) (usable : Usable features)
    (positive : ∀ c ∈ p.critical, 0 < c.weight)
    (agreed : BaselineDetector.voteMean features p = votes) (within : 0 ≤ votes ∧ votes ≤ 1) :
    (d.detect features (some p)).score =
      d.blend.baseline * votes + d.blend.others (.measure features) := by
  have raw : rawScore (d.terms features (some p)) =
      d.blend.baseline * votes + d.blend.others (.measure features) := by
    rw [raw_score_of_convex convex positive, agreed]
  have scored : (d.detect features (some p)).score =
      clampScore (rawScore (d.terms features (some p))) := by
    rw [d.detect_usable usable]
    rfl
  -- Neither part exceeds its weight, so clamping finds nothing to do.
  have baseline := product_within convex.baseline within
  have others := others_within convex (sub_scores_within features)
  rw [scored, raw, exact_score, max_eq_right (by linarith), min_eq_right (by linarith)]

/- The other signals move the score by their weights at most. -/
theorem score_near_votes (convex : d.blend.Convex) (usable : Usable features)
    (positive : ∀ c ∈ p.critical, 0 < c.weight)
    (agreed : BaselineDetector.voteMean features p = votes) (within : 0 ≤ votes ∧ votes ≤ 1) :
    d.blend.baseline * votes ≤ (d.detect features (some p)).score ∧
      (d.detect features (some p)).score ≤ d.blend.baseline * votes + (1 - d.blend.baseline) := by
  have others := others_within convex (sub_scores_within features)
  rw [blended_score convex usable positive agreed within]
  constructor <;> linarith

end

theorem votes_at_means {stats : Stats Rat} {topCount : Nat} {features : FeatureVector Rat}
    {mean : CriticalFeature Rat → Rat} {votes : Rat}
    (present : ∃ c ∈ (Profile.ofStats stats topCount).critical, features.contains c.name = true)
    (scored : ∀ c : CriticalFeature Rat, 0 < c.spread → featureScore c (mean c) = votes)
    (atMeans : ∀ c ∈ (Profile.ofStats stats topCount).critical, ∀ x,
      features.get? c.name = some x → x = mean c) :
    BaselineDetector.voteMean features (Profile.ofStats stats topCount) = votes := by
  apply BaselineDetector.vote_mean_of_scores
  · exact critical_weights_positive stats topCount
  · obtain ⟨c, member, held⟩ := present
    obtain ⟨x, found⟩ := Option.isSome_iff_exists.mp held
    exact List.ne_nil_of_mem (BaselineDetector.mem_present.mpr ⟨member, found⟩)
  · rintro ⟨c, x⟩ member
    obtain ⟨critical, found⟩ := BaselineDetector.mem_present.mp member
    rw [atMeans c critical x found]
    exact scored c (spread_positive (critical_is_ranked critical))

theorem margin_of_convex {w : Blend Rat} (convex : w.Convex) :
    (w.baseline - w.perfection - w.simplicity - w.chaos) / 2 = w.baseline - 1 / 2 := by
  have total := convex.total
  rw [Blend.total] at total
  linarith

/-- Where every critical feature that a vector has is at its mean on one side, the score is at
least as far on that side as half of what the weight of the votes exceeds the other three weights
by. A detector keeps a blend of weights that sum to one, and takes the default one instead if some
of them are negative. -/
theorem means_bound_the_score (stats : Stats Rat) (topCount : Nat) (thresholds : Thresholds Rat)
    (blend : Blend Rat) (maxReasons : Nat) (features : FeatureVector Rat) (usable : Usable features)
    (summing : blend.total = 1)
    (present : ∃ c ∈ (Profile.ofStats stats topCount).critical,
      features.contains c.name = true) :
    let p := Profile.ofStats stats topCount
    let d := BaselineDetector.make thresholds blend maxReasons
    let score := (d.detect features (some p)).score
    let w := d.blend
    let margin := (w.baseline - w.perfection - w.simplicity - w.chaos) / 2
    ((∀ x ∈ blend.weights, 0 ≤ x) → w = blend) ∧
    ((∀ c ∈ p.critical, ∀ x, features.get? c.name = some x → x = c.aiMean) →
      1 / 2 + margin ≤ score ∧ (blend = .default → 3 / 5 ≤ score) ∧
        (SubScores.measure features = ⟨1, 1, 0⟩ → score = 1)) ∧
    ((∀ c ∈ p.critical, ∀ x, features.get? c.name = some x → x = c.humanMean) →
      score ≤ 1 / 2 - margin ∧ (blend = .default → score ≤ 2 / 5)) := by
  intro p d score w margin
  have convex : w.Convex := repair_convex summing
  have sum := convex.total
  rw [Blend.total] at sum
  have positive : ∀ c ∈ p.critical, 0 < c.weight := critical_weights_positive stats topCount
  have half : margin = w.baseline - 1 / 2 := margin_of_convex convex
  have byDefault (defaulted : blend = .default) : w.baseline = 3 / 5 := by
    have kept : w = .default := by
      subst defaulted
      exact repair_of_nonneg summing (by decide +kernel)
    rw [kept]
    decide +kernel
  refine ⟨repair_of_nonneg summing, ?_, ?_⟩
  · intro atMeans
    have agreed := votes_at_means present (fun c => score_at_ai_mean) atMeans
    have least : w.baseline * 1 ≤ score :=
      (score_near_votes convex usable positive agreed (by norm_num)).1
    refine ⟨by linarith, ?_, ?_⟩
    · intro defaulted
      rw [byDefault defaulted] at least
      linarith
    · intro polished
      have blended : score = _ := blended_score convex usable positive agreed (by norm_num)
      rw [blended, polished, Blend.others]
      linarith
  · intro atMeans
    have agreed := votes_at_means present (fun c => score_at_human_mean) atMeans
    have most : score ≤ w.baseline * 0 + (1 - w.baseline) :=
      (score_near_votes convex usable positive agreed (by norm_num)).2
    refine ⟨by linarith, ?_⟩
    intro defaulted
    rw [byDefault defaulted] at most
    linarith

def commentMeans : Stats Rat where
  ai := .ofList [("basic.comment_ratio", 0.066)]
  human := .ofList [("basic.comment_ratio", 0.006)]

/- At the machine's mean, with everything else as a human would have it. -/
def messyButCommented : FeatureVector Rat :=
  .ofList [("basic.loc", 30), ("basic.comment_ratio", 0.066),
    ("human_style.spacing_issues_ratio", 5), ("basic.cyclomatic_complexity", 9),
    ("naming.generic_var_ratio", 0.9)]

theorem messy_score_is_least :
    Usable messyButCommented ∧ (Blend.default : Blend Rat).total = 1 ∧
      (∀ c ∈ (Profile.ofStats commentMeans 15).critical,
        messyButCommented.get? c.name = some c.aiMean) ∧
      let d := BaselineDetector.make BaselineDetector.defaultThresholds Blend.default 6
      let score := (d.detect messyButCommented (some (.ofStats commentMeans 15))).score
      3 / 5 ≤ score ∧ score = 3 / 5 := by
  have usable : Usable messyButCommented := (signal_iff_usable _).mp (by decide +kernel)
  have summing : (Blend.default : Blend Rat).total = 1 := by decide +kernel
  have atMeans : ∀ c ∈ (Profile.ofStats commentMeans 15).critical,
      messyButCommented.get? c.name = some c.aiMean := by decide +kernel
  obtain ⟨-, ai, -⟩ := means_bound_the_score commentMeans 15 BaselineDetector.defaultThresholds
    .default 6 messyButCommented usable summing (by decide +kernel)
  have bound := ai fun c member x found =>
    Option.some.inj (found.symm.trans (atMeans c member))
  exact ⟨usable, summing, atMeans, bound.2.1 rfl, by decide +kernel⟩

end Authorship.Detection
