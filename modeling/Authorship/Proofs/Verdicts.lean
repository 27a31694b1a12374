import Authorship.Detection.Engine
import Authorship.Proofs.ExactArithmetic
import Authorship.Proofs.Tables

/-
What a detection answers. Both ways of scoring only make terms. From there on one assembly decides,
and the thresholds it compares with need not be in order.
-/
namespace Authorship.Detection

open Baseline Scalar

section

variable {α : Type} [Scalar α]

def Settings.thresholds (c : Settings α) : Method → Thresholds α
  | .heuristic => c.heuristic
  | .baselineAware => c.baseline.thresholds

def Settings.terms (c : Settings α) (features : FeatureVector α) (profile : Option (Profile α)) :
    Method → List (Contribution α)
  | .heuristic => HeuristicDetector.terms features
  | .baselineAware =>
    (BaselineDetector.make c.baseline.thresholds c.baseline.blend c.reasonLimit).terms features
      profile

theorem detect_assembles (c : Settings α) (features : FeatureVector α)
    (profile : Option (Profile α)) :
    detect c features profile =
      if hasSignal features then
        assemble (c.terms features profile (c.strategy.resolve profile))
          (c.thresholds (c.strategy.resolve profile)) c.reasonLimit (c.strategy.resolve profile)
      else insufficient (c.strategy.resolve profile) := by
  rw [detect]
  cases c.strategy.resolve profile <;> rfl

theorem reasons_within_limit (terms : List (Contribution α)) (thresholds : Thresholds α)
    (limit : Nat) (method : Method) :
    (assemble terms thresholds limit method).reasons.length ≤ limit := by
  simp only [assemble, List.length_map]
  exact List.length_take_le limit _

/- Whatever is scored contributes, be it nothing. -/

theorem terms_nonempty (c : Settings α) (features : FeatureVector α)
    (profile : Option (Profile α)) (method : Method) :
    c.terms features profile method ≠ [] := by
  cases method with
  | heuristic => simp [Settings.terms, HeuristicDetector.terms, aiRules]
  | baselineAware =>
    simp [Settings.terms, BaselineDetector.terms, BaselineDetector.secondaryTerms]

theorem assembled_contributes {terms : List (Contribution α)} (some : terms ≠ [])
    (thresholds : Thresholds α) (limit : Nat) (method : Method) :
    (assemble terms thresholds limit method).contributions.isEmpty = false := by
  obtain ⟨first, rest, rfl⟩ := List.exists_cons_of_ne_nil some
  have entered : (first.key, first.value) ∈
      (first :: rest).map fun term => (term.key, term.value) := List.mem_cons_self
  obtain ⟨x, found⟩ := Option.isSome_iff_exists.mp (Table.get_of_mem entered)
  exact Table.not_empty_of_get found

end

/-- There is something to score: features, and not a count of code lines that is zero. -/
structure Usable (features : FeatureVector Rat) : Prop where
  notEmpty : features.isEmpty = false
  someCode : ∀ loc, features.get? "basic.loc" = some loc → 0 < loc

theorem signal_iff_usable (features : FeatureVector Rat) :
    hasSignal features = true ↔ Usable features := by
  have code : (!(features.get? "basic.loc").any fun loc => loc ≤ zero) = true ↔
      ∀ loc, features.get? "basic.loc" = some loc → 0 < loc := by
    cases features.get? "basic.loc" with
    | none => simp
    | some loc =>
      rw [Option.any_some, Bool.not_eq_true', decide_eq_false_iff_not]
      simp only [Option.some.injEq, forall_eq']
      exact not_le
  rw [hasSignal, Bool.and_eq_true, code, Bool.not_eq_true']
  exact ⟨fun ⟨notEmpty, someCode⟩ => ⟨notEmpty, someCode⟩, fun h => ⟨h.notEmpty, h.someCode⟩⟩

theorem HeuristicDetector.detect_usable (d : HeuristicDetector Rat)
    {features : FeatureVector Rat} (usable : Usable features) :
    d.detect features =
      assemble (HeuristicDetector.terms features) d.thresholds d.maxReasons .heuristic :=
  if_pos ((signal_iff_usable features).mpr usable)

theorem BaselineDetector.detect_usable (d : BaselineDetector Rat) {features : FeatureVector Rat}
    (usable : Usable features) (profile : Option (Profile Rat)) :
    d.detect features profile =
      assemble (d.terms features profile) d.thresholds d.maxReasons .baselineAware :=
  if_pos ((signal_iff_usable features).mpr usable)

/-- When a prediction is the right one. Both comparisons are strict, and where both hold the first
one counts. -/
def Thresholds.Supports (t : Thresholds Rat) (score : Rat) : Prediction → Prop
  | .aiGenerated => t.ai < score
  | .humanWritten => ¬ t.ai < score ∧ score < t.human
  | .uncertain => ¬ t.ai < score ∧ ¬ score < t.human

/-- A number of thousandths, the nearest one and of two the upper one. -/
def NearestThousandth (x y : Rat) : Prop :=
  (∃ n : Int, y = n / 1000) ∧ x - 1 / 2000 < y ∧ y ≤ x + 1 / 2000

def Confident (score : Rat) : Prediction → Rat → Prop
  | .aiGenerated, confidence => NearestThousandth score confidence
  | .humanWritten, confidence => NearestThousandth (1 - score) confidence
  | .uncertain, confidence => confidence = 1 / 2

theorem round3_nearest {x : Rat} (nonneg : 0 ≤ x) : NearestThousandth x (round3 x) := by
  have scaled : round3 x = Scalar.round (x * 1000) / 1000 := rfl
  have nonneg' : 0 ≤ x * 1000 := by linarith
  have bounds := round_nearest nonneg'
  rw [exact_round nonneg'] at bounds scaled
  refine ⟨⟨_, scaled⟩, ?_, ?_⟩ <;> rw [scaled] <;> linarith

theorem thousandth_within {x y : Rat} (nearest : NearestThousandth x y) (nonneg : 0 ≤ x)
    (atMostOne : x ≤ 1) : 0 ≤ y ∧ y ≤ 1 := by
  obtain ⟨⟨n, rfl⟩, above, below⟩ := nearest
  have low : (-1 : Rat) < n := by linarith
  have high : (n : Rat) < 1001 := by linarith
  have low' : 0 ≤ n := by exact_mod_cast low
  have high' : n ≤ 1000 := by
    have : n < 1001 := by exact_mod_cast high
    omega
  have low'' : (0 : Rat) ≤ n := by exact_mod_cast low'
  have high'' : (n : Rat) ≤ 1000 := by exact_mod_cast high'
  constructor <;> linarith

theorem verdict_iff (t : Thresholds Rat) (score : Rat) (prediction : Prediction) :
    (t.verdict score).1 = prediction ↔ t.Supports score prediction := by
  rw [Thresholds.verdict]
  by_cases ai : t.ai < score
  · cases prediction <;> simp [Thresholds.Supports, ai]
  · by_cases human : score < t.human
    · cases prediction <;> simp [Thresholds.Supports, ai, human]
    · cases prediction <;> simp [Thresholds.Supports, ai, human]

theorem verdict_confident (t : Thresholds Rat) {score : Rat} (nonneg : 0 ≤ score)
    (atMostOne : score ≤ 1) : Confident score (t.verdict score).1 (t.verdict score).2 := by
  rw [Thresholds.verdict]
  by_cases ai : t.ai < score
  · rw [if_pos ai]
    exact round3_nearest nonneg
  · rw [if_neg ai]
    by_cases human : score < t.human
    · rw [if_pos human]
      have nonneg' : 0 ≤ 1 - score := by linarith
      exact round3_nearest nonneg'
    · rw [if_neg human]
      change (0.5 : Rat) = 1 / 2
      norm_num

theorem confidence_within {score confidence : Rat} {prediction : Prediction} (nonneg : 0 ≤ score)
    (atMostOne : score ≤ 1) (confident : Confident score prediction confidence) :
    0 ≤ confidence ∧ confidence ≤ 1 := by
  cases prediction with
  | aiGenerated => exact thousandth_within confident nonneg atMostOne
  | humanWritten => exact thousandth_within confident (by linarith) (by linarith)
  | uncertain =>
    rw [show confidence = 1 / 2 from confident]
    norm_num

theorem exact_half : (half : Rat) = 1 / 2 := by
  change (0.5 : Rat) = 1 / 2
  norm_num

theorem exact_raw_score (terms : List (Contribution Rat)) :
    rawScore terms = 1 / 2 + (terms.map (·.value)).sum := by
  rw [rawScore, exact_half, exact_sum]

theorem exact_score (raw : Rat) : clampScore raw = min 1 (max 0 raw) := exact_clamp 0 1 raw

theorem score_within (raw : Rat) : 0 ≤ clampScore raw ∧ clampScore raw ≤ 1 :=
  clamp_within (by norm_num) raw

theorem assembled_verdict (terms : List (Contribution Rat)) (t : Thresholds Rat) (limit : Nat)
    (method : Method) :
    let a := assemble terms t limit method
    (0 ≤ a.score ∧ a.score ≤ 1) ∧ (∀ p, a.prediction = p ↔ t.Supports a.score p) ∧
      Confident a.score a.prediction a.confidence := by
  have within := score_within (rawScore terms)
  exact ⟨within, verdict_iff t _, verdict_confident t within.1 within.2⟩

/-- Whatever the settings are, the score is from zero to one, and so is the confidence. If there is
something to score, the thresholds of the way of scoring decide, and the confidence is how far the
score speaks for the prediction. -/
theorem prediction_follows_score (c : Settings Rat) (strategy : Option Strategy)
    (features : FeatureVector Rat) (profile : Option (Profile Rat)) :
    let method := (strategy.getD c.strategy).resolve profile
    let a := detect (c.withStrategy strategy) features profile
    a.method = method ∧ (0 ≤ a.score ∧ a.score ≤ 1) ∧ (0 ≤ a.confidence ∧ a.confidence ≤ 1) ∧
      a.reasons.length ≤ max 5 (min 8 c.maxReasons) ∧
      (Usable features →
        (∀ prediction, a.prediction = prediction ↔
          (c.thresholds method).Supports a.score prediction) ∧
        Confident a.score a.prediction a.confidence) := by
  intro method a
  have assembled : a = if hasSignal features then _ else insufficient method :=
    detect_assembles (c.withStrategy strategy) features profile
  by_cases signal : hasSignal features = true
  · rw [if_pos signal] at assembled
    obtain ⟨within, decided, confident⟩ := assembled_verdict
      ((c.withStrategy strategy).terms features profile method) (c.thresholds method)
      c.reasonLimit method
    have certainty := confidence_within within.1 within.2 confident
    have few := reasons_within_limit ((c.withStrategy strategy).terms features profile method)
      (c.thresholds method) c.reasonLimit method
    rw [assembled]
    exact ⟨rfl, within, certainty, few, fun _ => ⟨decided, confident⟩⟩
  · rw [if_neg signal] at assembled
    have one : 1 ≤ max 5 (min 8 c.maxReasons) := by omega
    rw [assembled]
    refine ⟨rfl, ?_, ?_, one, fun usable => absurd ((signal_iff_usable features).mpr usable) signal⟩
    · change (0 : Rat) ≤ 0.5 ∧ (0.5 : Rat) ≤ 1
      norm_num
    · change (0 : Rat) ≤ 0 ∧ (0 : Rat) ≤ 1
      norm_num

def genericNames : FeatureVector Rat :=
  .ofList [("basic.loc", 20), ("naming.generic_var_ratio", 0.9)]

def invertedThresholds : Settings Rat := { Settings.default with heuristic := ⟨0.25, 0.6⟩ }

theorem inverted_thresholds_decide :
    Usable genericNames ∧
      let a := detect (invertedThresholds.withStrategy none) genericNames none
      a.prediction = .aiGenerated ∧ a.score = 17 / 60 ∧ a.confidence = 283 / 1000 := by
  have usable : Usable genericNames := (signal_iff_usable _).mp (by decide +kernel)
  have score : (detect (invertedThresholds.withStrategy none) genericNames none).score = 17 / 60 :=
    by decide +kernel
  obtain ⟨-, -, -, -, decided⟩ := prediction_follows_score invertedThresholds none genericNames none
  have ai : (detect (invertedThresholds.withStrategy none) genericNames none).prediction =
      .aiGenerated := by
    refine ((decided usable).1 .aiGenerated).mpr ?_
    rw [score]
    change (0.25 : Rat) < 17 / 60
    norm_num
  exact ⟨usable, ai, score, by decide +kernel⟩

end Authorship.Detection
