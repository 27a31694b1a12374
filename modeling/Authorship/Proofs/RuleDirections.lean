import Authorship.Proofs.Verdicts
import Mathlib.Algebra.Order.BigOperators.Group.List

/-
Which way a feature moves the score of the fixed rules. A gate makes a term jump and clamping makes
it flat, but neither turns it around, so that the direction of a rule and the sign of its weight
decide for the whole range. One feature stands in both tables, and there the two rules agree.
-/
namespace Authorship.Detection

open Scalar

namespace Rule

/- What the gate leaves of a normalized value. -/
def passed (r : Rule Rat) (n : Rat) : Rat :=
  match r.gate with
  | some gate => if n ≤ gate then 0 else n
  | none => n

/- How a term goes with its feature: up if this is positive, down if it is negative. -/
def slope (r : Rule Rat) : Rat :=
  match r.direction with
  | .higher => r.weight
  | .lower => -r.weight

theorem weigh_eq (r : Rule Rat) (x : Rat) : r.weigh x = r.weight * r.passed (r.normalize x) := by
  rw [weigh, passed]
  cases r.gate with
  | none => rfl
  | some gate =>
    simp only
    split
    · exact (mul_zero r.weight).symm
    · rfl

/- Where a value lies in the range, whichever end is the strong one. -/
def position (r : Rule Rat) (x : Rat) : Rat :=
  if 0 < r.high - r.low then clamp 0 1 ((x - r.low) / (r.high - r.low)) else 0

theorem normalize_eq (r : Rule Rat) (x : Rat) :
    r.normalize x =
      match r.direction with
      | .higher => r.position x
      | .lower => 1 - r.position x := rfl

theorem position_within (r : Rule Rat) (x : Rat) : 0 ≤ r.position x ∧ r.position x ≤ 1 := by
  rw [position]
  split
  · exact clamp_within (by norm_num) _
  · norm_num

theorem position_mono (r : Rule Rat) {x y : Rat} (le : x ≤ y) : r.position x ≤ r.position y := by
  rw [position, position]
  split
  · rename_i span
    apply clamp_mono
    exact div_le_div_of_nonneg_right (by linarith) span.le
  · exact le_refl 0

theorem normalize_nonneg (r : Rule Rat) (x : Rat) : 0 ≤ r.normalize x := by
  have within := r.position_within x
  rw [normalize_eq]
  cases r.direction with
  | higher => exact within.1
  | lower => exact sub_nonneg.mpr within.2

/- The jump at the gate goes up: what is silenced would not have been negative. -/
theorem passed_mono (r : Rule Rat) {m n : Rat} (nonneg : 0 ≤ m) (le : m ≤ n) :
    r.passed m ≤ r.passed n := by
  rw [passed, passed]
  cases r.gate with
  | none => exact le
  | some gate =>
    by_cases silent : m ≤ gate
    · simp only [if_pos silent]
      split
      · exact le_refl 0
      · exact le_trans nonneg le
    · have loud : ¬ n ≤ gate := fun silent' => silent (le_trans le silent')
      simp only [if_neg silent, if_neg loud]
      exact le

theorem weigh_gains (r : Rule Rat) {x y : Rat} (le : x ≤ y) :
    ∃ gain, 0 ≤ gain ∧ r.weigh y = r.weigh x + r.slope * gain := by
  have moved := r.position_mono le
  rw [weigh_eq, weigh_eq, slope]
  cases direction : r.direction with
  | higher =>
    have ordered : r.normalize x ≤ r.normalize y := by
      rw [normalize_eq, normalize_eq, direction]
      exact moved
    refine ⟨_, sub_nonneg.mpr (r.passed_mono (r.normalize_nonneg x) ordered), ?_⟩
    ring
  | lower =>
    have ordered : r.normalize y ≤ r.normalize x := by
      rw [normalize_eq, normalize_eq, direction]
      exact sub_le_sub_left moved 1
    refine ⟨_, sub_nonneg.mpr (r.passed_mono (r.normalize_nonneg y) ordered), ?_⟩
    ring

end Rule

/- The same features with one of them at least as large as before. -/
structure Raised (name : String) (v w : FeatureVector Rat) : Prop where
  others : ∀ other, other ≠ name → w.get? other = v.get? other
  raised : ∃ x y, v.get? name = some x ∧ w.get? name = some y ∧ x ≤ y

theorem evaluate_gains {name : String} {v w : FeatureVector Rat} (raised : Raised name v w)
    (r : Rule Rat) :
    ∃ gain, 0 ≤ gain ∧ (r.feature ≠ name → gain = 0) ∧
      r.evaluate w = r.evaluate v + r.slope * gain := by
  by_cases here : r.feature = name
  · obtain ⟨x, y, before, after, le⟩ := raised.raised
    obtain ⟨gain, nonneg, moved⟩ := r.weigh_gains le
    refine ⟨gain, nonneg, fun elsewhere => absurd here elsewhere, ?_⟩
    simp only [Rule.evaluate, here, before, after]
    exact moved
  · refine ⟨0, le_refl 0, fun _ => rfl, ?_⟩
    rw [Rule.evaluate, Rule.evaluate, raised.others _ here]
    ring

def rules : List (Rule Rat) := aiRules ++ humanRules

/- The features of which more speaks for a machine. Of all others that have a rule, more speaks for
a human. -/
def SpeaksForMachine (name : String) : Prop :=
  (∃ r ∈ (aiRules : List (Rule Rat)), r.feature = name) ∨ name = "basic.loc"

instance (name : String) : Decidable (SpeaksForMachine name) :=
  inferInstanceAs (Decidable (_ ∨ _))

theorem slopes_of_tables : ∀ r ∈ rules,
    if SpeaksForMachine r.feature then 0 ≤ r.slope else r.slope ≤ 0 := by
  decide +kernel

theorem evaluate_rises {name : String} {v w : FeatureVector Rat} (raised : Raised name v w)
    (machine : SpeaksForMachine name) {r : Rule Rat} (member : r ∈ rules) :
    r.evaluate v ≤ r.evaluate w := by
  obtain ⟨gain, nonneg, elsewhere, moved⟩ := evaluate_gains raised r
  rw [moved]
  by_cases here : r.feature = name
  · have slope := slopes_of_tables r member
    rw [here, if_pos machine] at slope
    exact le_add_of_nonneg_right (mul_nonneg slope nonneg)
  · rw [elsewhere here, mul_zero, add_zero]

theorem evaluate_falls {name : String} {v w : FeatureVector Rat} (raised : Raised name v w)
    (human : ¬ SpeaksForMachine name) {r : Rule Rat} (member : r ∈ rules) :
    r.evaluate w ≤ r.evaluate v := by
  obtain ⟨gain, nonneg, elsewhere, moved⟩ := evaluate_gains raised r
  rw [moved]
  by_cases here : r.feature = name
  · have slope := slopes_of_tables r member
    rw [here, if_neg human] at slope
    exact add_le_of_nonpos_right (mul_nonpos_of_nonpos_of_nonneg slope nonneg)
  · rw [elsewhere here, mul_zero, add_zero]

/- From terms to the verdict. -/

def heuristicScore (features : FeatureVector Rat) : Rat :=
  clampScore (rawScore (HeuristicDetector.terms features))

theorem heuristic_score_mono {v w : FeatureVector Rat}
    (le : ∀ r ∈ rules, r.evaluate v ≤ r.evaluate w) : heuristicScore v ≤ heuristicScore w := by
  have sums : ((HeuristicDetector.terms v).map (·.value)).sum ≤
      ((HeuristicDetector.terms w).map (·.value)).sum := by
    simp only [HeuristicDetector.terms, List.map_map]
    exact List.sum_le_sum le
  apply clamp_mono
  rw [exact_raw_score, exact_raw_score]
  linarith

def Prediction.rank : Prediction → Nat
  | .humanWritten => 0
  | .uncertain => 1
  | .aiGenerated => 2

theorem verdict_mono (t : Thresholds Rat) {score score' : Rat} (le : score ≤ score') :
    (t.verdict score).1.rank ≤ (t.verdict score').1.rank := by
  rw [Thresholds.verdict, Thresholds.verdict]
  by_cases ai : t.ai < score
  · rw [if_pos ai, if_pos (lt_of_lt_of_le ai le)]
  · rw [if_neg ai]
    by_cases human : score < t.human
    · rw [if_pos human]
      exact Nat.zero_le _
    · have human' : ¬ score' < t.human := fun human' => human (lt_of_le_of_lt le human')
      rw [if_neg human, if_neg human']
      split
      · exact Nat.le_succ 1
      · exact Nat.le_refl 1

theorem heuristic_assessment (d : HeuristicDetector Rat) {features : FeatureVector Rat}
    (usable : Usable features) :
    (d.detect features).score = heuristicScore features ∧
      (d.detect features).prediction = (d.thresholds.verdict (heuristicScore features)).1 := by
  rw [d.detect_usable usable]
  exact ⟨rfl, rfl⟩

/-- More of a feature that speaks for a machine never lowers a term, the score or the verdict, and
more of any other feature never raises one. It does not matter whether the thresholds are in
order. -/
theorem raised_feature_moves_one_way (d : HeuristicDetector Rat) {name : String}
    {v w : FeatureVector Rat} (usable : Usable v) (usable' : Usable w)
    (raised : Raised name v w) :
    let before := d.detect v
    let after := d.detect w
    (SpeaksForMachine name →
      (∀ r ∈ rules, r.evaluate v ≤ r.evaluate w) ∧ before.score ≤ after.score ∧
        before.prediction.rank ≤ after.prediction.rank) ∧
    (¬ SpeaksForMachine name →
      (∀ r ∈ rules, r.evaluate w ≤ r.evaluate v) ∧ after.score ≤ before.score ∧
        after.prediction.rank ≤ before.prediction.rank) := by
  intro before after
  obtain ⟨score, prediction⟩ := heuristic_assessment d usable
  obtain ⟨score', prediction'⟩ := heuristic_assessment d usable'
  rw [score, score', prediction, prediction']
  constructor
  · intro machine
    have terms : ∀ r ∈ rules, r.evaluate v ≤ r.evaluate w := fun _ => evaluate_rises raised machine
    have ordered := heuristic_score_mono terms
    exact ⟨terms, ordered, verdict_mono d.thresholds ordered⟩
  · intro human
    have terms : ∀ r ∈ rules, r.evaluate w ≤ r.evaluate v := fun _ => evaluate_falls raised human
    have ordered := heuristic_score_mono terms
    exact ⟨terms, ordered, verdict_mono d.thresholds ordered⟩

def uncommented : FeatureVector Rat :=
  .ofList [("basic.loc", 60), ("basic.comment_ratio", 0), ("naming.descriptive_var_ratio", 0.9)]

def commented : FeatureVector Rat := uncommented.insert "basic.comment_ratio" 0.25

theorem comments_raise_the_score :
    Raised "basic.comment_ratio" uncommented commented ∧
      SpeaksForMachine "basic.comment_ratio" ∧
      let before := (HeuristicDetector.default : HeuristicDetector Rat).detect uncommented
      let after := (HeuristicDetector.default : HeuristicDetector Rat).detect commented
      before.score = 57 / 100 ∧ after.score = 77 / 100 ∧ before.prediction = .uncertain ∧
        before.prediction.rank ≤ after.prediction.rank := by
  have usable : Usable uncommented := (signal_iff_usable _).mp (by decide +kernel)
  have usable' : Usable commented := (signal_iff_usable _).mp (by decide +kernel)
  have machine : SpeaksForMachine "basic.comment_ratio" := by decide +kernel
  have raised : Raised "basic.comment_ratio" uncommented commented := by
    constructor
    · intro other different
      exact (Table.get_insert _ _ _ _).trans (if_neg different)
    · exact ⟨0, 1 / 4, by decide +kernel, by decide +kernel, by norm_num⟩
  have upwards := (raised_feature_moves_one_way .default usable usable' raised).1 machine
  exact ⟨raised, machine, by decide +kernel, by decide +kernel, by decide +kernel, upwards.2.2⟩

end Authorship.Detection
