import Authorship.Proofs.BlendedScore
import Mathlib.Data.List.Forall2

/-
Which way a feature moves the score through the graded checks. A check counts by the first of its
two bounds that is met, and a value that goes its way keeps every bound it has met, so the grade
never goes back. Each feature is read in one direction by all the tables that read it, once
irregularity is turned around.
-/
namespace Authorship.Detection

open Baseline Scalar

namespace Indicator

variable {i : Indicator Rat}

/- The grade of what meets as many bounds is as good, because the strict one counts for most. -/
theorem grade_of_met (lenient : 0 ≤ i.lenientScore ∧ i.lenientScore ≤ 1) {x y : Rat}
    (met : ∀ bound, i.isMet x bound = true → i.isMet y bound = true) : i.grade x ≤ i.grade y := by
  have within := grade_within lenient y
  unfold grade at within ⊢
  by_cases strict : i.isMet x i.strict = true
  · rw [if_pos strict, if_pos (met _ strict)]
  · rw [if_neg strict]
    by_cases loose : i.isMet x i.lenient = true
    · rw [if_pos loose, if_pos (met _ loose)]
      split
      · exact lenient.2
      · exact le_refl _
    · rw [if_neg loose]
      exact within.1

theorem grade_rises (upwards : i.relation = .atLeast)
    (lenient : 0 ≤ i.lenientScore ∧ i.lenientScore ≤ 1) {x y : Rat} (le : x ≤ y) :
    i.grade x ≤ i.grade y := by
  apply grade_of_met lenient
  intro bound
  simp only [isMet, upwards, decide_eq_true_eq]
  intro reached
  exact reached.trans le

theorem grade_falls (downwards : i.relation = .atMost)
    (lenient : 0 ≤ i.lenientScore ∧ i.lenientScore ≤ 1) {x y : Rat} (le : x ≤ y) :
    i.grade y ≤ i.grade x := by
  apply grade_of_met lenient
  intro bound
  simp only [isMet, downwards, decide_eq_true_eq]
  intro reached
  exact le.trans reached

/- Raising a feature leaves the same checks to be made, unless it is the one that a check needs. -/
theorem score_related {R : Rat → Rat → Prop} (refl : ∀ x, R x x) {name : String}
    {v w : FeatureVector Rat} (raised : Raised name v w) (unneeded : i.needs ≠ some name)
    (moved : i.feature = name → ∀ x y, x ≤ y → R (i.grade x) (i.grade y)) :
    Option.Rel R (i.score? v) (i.score? w) := by
  have applicable : i.isApplicable w = i.isApplicable v := by
    unfold isApplicable
    cases needed : i.needs with
    | none => rfl
    | some other =>
      have different : other ≠ name := fun same => unneeded (same ▸ needed)
      rw [Option.all_some, Option.all_some, raised.others other different]
  unfold score?
  rw [applicable]
  split
  · by_cases here : i.feature = name
    · obtain ⟨x, y, before, after, le⟩ := raised.raised
      rw [here, before, after]
      exact .some (moved here x y le)
    · rw [raised.others _ here]
      cases v.get? i.feature with
      | none => exact .none
      | some x => exact .some (refl (i.grade x))
  · exact .none

end Indicator

section

variable {indicators : List (Indicator Rat)} {name : String} {v w : FeatureVector Rat}

theorem scores_related {R : Rat → Rat → Prop}
    (related : ∀ i ∈ indicators, Option.Rel R (i.score? v) (i.score? w)) :
    List.Forall₂ R (indicators.filterMap (·.score? v)) (indicators.filterMap (·.score? w)) := by
  induction indicators with
  | nil => exact .nil
  | cons i rest ih =>
    rw [List.forall_mem_cons] at related
    have later := ih related.2
    have first := related.1
    rw [List.filterMap_cons, List.filterMap_cons]
    cases before : i.score? v with
    | none =>
      rw [before] at first
      cases after : i.score? w with
      | none => exact later
      | some y =>
        rw [after] at first
        cases first
    | some x =>
      rw [before] at first
      cases after : i.score? w with
      | none =>
        rw [after] at first
        cases first
      | some y =>
        rw [after] at first
        cases first with
        | some ordered => exact .cons ordered later

theorem mean_score_mono (ordered : List.Forall₂ (· ≤ ·) (indicators.filterMap (·.score? v))
    (indicators.filterMap (·.score? w))) : meanScore indicators v ≤ meanScore indicators w := by
  have sums := ordered.sum_le_sum
  have lengths := ordered.length_eq
  unfold meanScore
  cases before : indicators.filterMap (·.score? v) with
  | nil =>
    rw [before] at ordered
    rw [List.forall₂_nil_left_iff.mp ordered]
  | cons x xs =>
    rw [before] at ordered sums lengths
    obtain ⟨y, ys, -, -, after⟩ := List.forall₂_cons_left_iff.mp ordered
    rw [after] at sums lengths ⊢
    change mean (x :: xs) ≤ mean (y :: ys)
    unfold mean
    rw [exact_sum, exact_sum, lengths]
    exact div_le_div_of_nonneg_right sums (Nat.cast_nonneg _)

/- Lenient grades are between nothing and full, and the feature decides over no check. -/
structure Graded (indicators : List (Indicator Rat)) (name : String) : Prop where
  lenient : ∀ i ∈ indicators, 0 ≤ i.lenientScore ∧ i.lenientScore ≤ 1
  unneeded : ∀ i ∈ indicators, i.needs ≠ some name

def ReadUpwards (indicators : List (Indicator Rat)) (name : String) : Prop :=
  ∀ i ∈ indicators, i.feature = name → i.relation = .atLeast

def ReadDownwards (indicators : List (Indicator Rat)) (name : String) : Prop :=
  ∀ i ∈ indicators, i.feature = name → i.relation = .atMost

instance : Decidable (ReadUpwards indicators name) :=
  inferInstanceAs (Decidable (∀ i ∈ indicators, i.feature = name → i.relation = .atLeast))

instance : Decidable (ReadDownwards indicators name) :=
  inferInstanceAs (Decidable (∀ i ∈ indicators, i.feature = name → i.relation = .atMost))

theorem mean_score_rises (graded : Graded indicators name) (raised : Raised name v w)
    (upwards : ReadUpwards indicators name) : meanScore indicators v ≤ meanScore indicators w := by
  apply mean_score_mono
  apply scores_related
  intro i member
  apply Indicator.score_related le_refl raised (graded.unneeded i member)
  intro here x y le
  exact Indicator.grade_rises (upwards i member here) (graded.lenient i member) le

theorem mean_score_falls (graded : Graded indicators name) (raised : Raised name v w)
    (downwards : ReadDownwards indicators name) :
    meanScore indicators w ≤ meanScore indicators v := by
  have related : ∀ i ∈ indicators, Option.Rel (fun x y => y ≤ x) (i.score? v) (i.score? w) := by
    intro i member
    apply Indicator.score_related (R := fun x y => y ≤ x) le_refl raised (graded.unneeded i member)
    intro here x y le
    exact Indicator.grade_falls (downwards i member here) (graded.lenient i member) le
  exact mean_score_mono (scores_related related).flip

end

/- The features of which more speaks for a machine. -/
def machineTraits : List String :=
  ["ast.indentation_consistency", "ast.variable_uniqueness_ratio",
    "complexity.maintainability_index", "ast.avg_variable_name_length"]

/- The features of which more speaks for a human. -/
def humanTraits : List String :=
  ["human_style.spacing_issues_ratio", "human_style.naming_inconsistency_ratio",
    "basic.cyclomatic_complexity", "ast.if_statements_per_loc", "ast.for_loops_per_loc",
    "naming.generic_var_ratio", "ast.single_char_vars_ratio"]

def checks : List (List (Indicator Rat)) :=
  [perfectionIndicators, simplicityIndicators, chaosIndicators]

theorem lenient_of_tables : ∀ indicators ∈ checks, ∀ i ∈ indicators,
    0 ≤ i.lenientScore ∧ i.lenientScore ≤ 1 := by
  decide +kernel

theorem needed_by_tables : ∀ indicators ∈ checks, ∀ i ∈ indicators,
    i.needs = none ∨ i.needs = some "ast.variable_count" := by
  decide +kernel

theorem graded_tables {name : String} (noCount : name ≠ "ast.variable_count") :
    ∀ indicators ∈ checks, Graded indicators name := by
  intro indicators listed
  constructor
  · exact lenient_of_tables indicators listed
  · intro i member needed
    rcases needed_by_tables indicators listed i member with nothing | count
    · rw [nothing] at needed
      contradiction
    · rw [count] at needed
      exact noCount (Option.some.inj needed).symm

/- The two first tables read a feature upwards and the one of irregularity reads it downwards. -/
def ReadForMachine (name : String) : Prop :=
  ReadUpwards perfectionIndicators name ∧ ReadUpwards simplicityIndicators name ∧
    ReadDownwards chaosIndicators name

def ReadForHuman (name : String) : Prop :=
  ReadDownwards perfectionIndicators name ∧ ReadDownwards simplicityIndicators name ∧
    ReadUpwards chaosIndicators name

instance : DecidablePred ReadForMachine := fun _ => inferInstanceAs (Decidable (_ ∧ _ ∧ _))

instance : DecidablePred ReadForHuman := fun _ => inferInstanceAs (Decidable (_ ∧ _ ∧ _))

theorem machine_traits_read : ∀ name ∈ machineTraits,
    name ≠ "ast.variable_count" ∧ ReadForMachine name := by
  decide +kernel

theorem human_traits_read : ∀ name ∈ humanTraits,
    name ≠ "ast.variable_count" ∧ ReadForHuman name := by
  decide +kernel

theorem traits_of_tables : ∀ indicators ∈ checks, ∀ i ∈ indicators,
    i.feature ∈ machineTraits ∨ i.feature ∈ humanTraits := by
  decide +kernel

theorem read_of_unread {indicators : List (Indicator Rat)} {name : String}
    (unread : ∀ i ∈ indicators, i.feature ≠ name) :
    ReadUpwards indicators name ∧ ReadDownwards indicators name := by
  constructor
  · intro i member here
    exact absurd here (unread i member)
  · intro i member here
    exact absurd here (unread i member)

/- What no table reads is read in both directions. -/
theorem unread_both_ways {name : String} (noMachine : name ∉ machineTraits)
    (noHuman : name ∉ humanTraits) : ReadForMachine name ∧ ReadForHuman name := by
  have unread : ∀ indicators ∈ checks, ∀ i ∈ indicators, i.feature ≠ name := by
    intro indicators listed i member same
    rcases traits_of_tables indicators listed i member with machine | human
    · exact noMachine (same ▸ machine)
    · exact noHuman (same ▸ human)
  have perfection := read_of_unread (unread perfectionIndicators (by simp [checks]))
  have simplicity := read_of_unread (unread simplicityIndicators (by simp [checks]))
  have chaos := read_of_unread (unread chaosIndicators (by simp [checks]))
  constructor
  · exact ⟨perfection.1, simplicity.1, chaos.2⟩
  · exact ⟨perfection.2, simplicity.2, chaos.1⟩

/- Of two measurements the second is no less polished and simple and no more irregular. -/
structure SubScores.Polished (a b : SubScores Rat) : Prop where
  perfection : a.perfection ≤ b.perfection
  simplicity : a.simplicity ≤ b.simplicity
  chaos : b.chaos ≤ a.chaos

section

variable {name : String} {v w : FeatureVector Rat}

theorem signals_of_machine_trait (noCount : name ≠ "ast.variable_count")
    (read : ReadForMachine name) (raised : Raised name v w) :
    (SubScores.measure v).Polished (SubScores.measure w) := by
  have graded := graded_tables noCount
  obtain ⟨perfection, simplicity, chaos⟩ := read
  constructor
  · exact mean_score_rises (graded perfectionIndicators (by simp [checks])) raised perfection
  · exact mean_score_rises (graded simplicityIndicators (by simp [checks])) raised simplicity
  · exact mean_score_falls (graded chaosIndicators (by simp [checks])) raised chaos

theorem signals_of_human_trait (noCount : name ≠ "ast.variable_count")
    (read : ReadForHuman name) (raised : Raised name v w) :
    (SubScores.measure w).Polished (SubScores.measure v) := by
  have graded := graded_tables noCount
  obtain ⟨perfection, simplicity, chaos⟩ := read
  constructor
  · exact mean_score_falls (graded perfectionIndicators (by simp [checks])) raised perfection
  · exact mean_score_falls (graded simplicityIndicators (by simp [checks])) raised simplicity
  · exact mean_score_rises (graded chaosIndicators (by simp [checks])) raised chaos

/- From the signals to the score. -/

theorem critical_terms_unmoved (d : BaselineDetector Rat) {p : Profile Rat}
    (same : ∀ c ∈ p.critical, w.get? c.name = v.get? c.name) :
    d.criticalTerms w p = d.criticalTerms v p := by
  have found : BaselineDetector.present w p = BaselineDetector.present v p := by
    apply List.filterMap_congr
    intro c member
    rw [same c member]
  unfold BaselineDetector.criticalTerms
  rw [found]

theorem secondary_terms_mono {d : BaselineDetector Rat} (nonneg : ∀ x ∈ d.blend.weights, 0 ≤ x)
    {a b : SubScores Rat} (polished : a.Polished b) :
    ((d.secondaryTerms a).map (·.value)).sum ≤ ((d.secondaryTerms b).map (·.value)).sum := by
  simp only [Blend.weights, List.forall_mem_cons] at nonneg
  obtain ⟨-, perfection, simplicity, chaos, -⟩ := nonneg
  have polish := mul_le_mul_of_nonneg_left polished.perfection perfection
  have simple := mul_le_mul_of_nonneg_left polished.simplicity simplicity
  have messy := mul_le_mul_of_nonneg_left polished.chaos chaos
  simp only [BaselineDetector.secondaryTerms, List.map_cons, List.map_nil, List.sum_cons,
    List.sum_nil, exact_half, exact_one]
  linarith

theorem score_of_polished {d : BaselineDetector Rat} (nonneg : ∀ x ∈ d.blend.weights, 0 ≤ x)
    {profile : Option (Profile Rat)} (usable : Usable v) (usable' : Usable w)
    (same : ∀ p ∈ profile, ∀ c ∈ p.critical, w.get? c.name = v.get? c.name)
    (polished : (SubScores.measure v).Polished (SubScores.measure w)) :
    (d.detect v profile).score ≤ (d.detect w profile).score := by
  have votes : (profile.map (d.criticalTerms w)).getD [] =
      (profile.map (d.criticalTerms v)).getD [] := by
    cases profile with
    | none => rfl
    | some p => exact critical_terms_unmoved d (same p rfl)
  have signals := secondary_terms_mono nonneg polished
  rw [d.detect_usable usable, d.detect_usable usable']
  apply clamp_mono
  rw [exact_raw_score, exact_raw_score, BaselineDetector.terms, BaselineDetector.terms, votes,
    List.map_append, List.map_append, List.sum_append, List.sum_append]
  linarith

end

/-- A feature that is not critical in the profile, and is not the count of variables that a check
needs, moves the score against a baseline one way only. More of some features never lowers it and
never lowers one of the three signals towards a machine, more of others never raises them, and the
rest changes nothing. Spacing counts for polish as well as for irregularity, and both times it
speaks for a human. -/
theorem checks_move_score_one_way (profile : Option (Profile Rat)) (thresholds : Thresholds Rat)
    (blend : Blend Rat) (maxReasons : Nat) {name : String} {v w : FeatureVector Rat}
    (usable : Usable v) (usable' : Usable w) (raised : Raised name v w)
    (notCritical : ∀ p ∈ profile, ∀ c ∈ p.critical, c.name ≠ name) :
    let d := BaselineDetector.make thresholds blend maxReasons
    let before := (d.detect v profile).score
    let after := (d.detect w profile).score
    (name ∈ machineTraits →
      before ≤ after ∧ (SubScores.measure v).Polished (SubScores.measure w)) ∧
    (name ∈ humanTraits →
      after ≤ before ∧ (SubScores.measure w).Polished (SubScores.measure v)) ∧
    (name ∉ machineTraits → name ∉ humanTraits → name ≠ "ast.variable_count" → after = before) ∧
    (∃ i ∈ (perfectionIndicators : List (Indicator Rat)),
      i.feature = "human_style.spacing_issues_ratio") ∧
    (∃ i ∈ (chaosIndicators : List (Indicator Rat)),
      i.feature = "human_style.spacing_issues_ratio") ∧
    "human_style.spacing_issues_ratio" ∈ humanTraits := by
  intro d before after
  have nonneg : ∀ x ∈ d.blend.weights, 0 ≤ x := repaired_weights_nonneg blend
  have same : ∀ p ∈ profile, ∀ c ∈ p.critical, w.get? c.name = v.get? c.name := by
    intro p member c critical
    exact raised.others c.name (notCritical p member c critical)
  have rises (polished : (SubScores.measure v).Polished (SubScores.measure w)) : before ≤ after :=
    score_of_polished nonneg usable usable' same polished
  have falls (polished : (SubScores.measure w).Polished (SubScores.measure v)) : after ≤ before :=
    score_of_polished nonneg usable' usable (fun p member c critical =>
      (same p member c critical).symm) polished
  refine ⟨?_, ?_, ?_, by decide +kernel, by decide +kernel, by decide⟩
  · intro machine
    obtain ⟨noCount, read⟩ := machine_traits_read name machine
    have polished := signals_of_machine_trait noCount read raised
    exact ⟨rises polished, polished⟩
  · intro human
    obtain ⟨noCount, read⟩ := human_traits_read name human
    have polished := signals_of_human_trait noCount read raised
    exact ⟨falls polished, polished⟩
  · intro noMachine noHuman noCount
    obtain ⟨machine, human⟩ := unread_both_ways noMachine noHuman
    apply le_antisymm
    · exact falls (signals_of_human_trait noCount human raised)
    · exact rises (signals_of_machine_trait noCount machine raised)

def tidy : FeatureVector Rat :=
  .ofList [("basic.loc", 40), ("basic.comment_ratio", 0.03),
    ("human_style.spacing_issues_ratio", 0.3)]

def untidy : FeatureVector Rat := tidy.insert "human_style.spacing_issues_ratio" 0.7

theorem spacing_lowers_the_score :
    Usable tidy ∧ Usable untidy ∧ Raised "human_style.spacing_issues_ratio" tidy untidy ∧
      (∀ c ∈ (Profile.ofStats commentMeans 15).critical,
        c.name ≠ "human_style.spacing_issues_ratio") ∧
      let d := BaselineDetector.make BaselineDetector.defaultThresholds unscaled 6
      let profile := some (Profile.ofStats commentMeans 15)
      (d.detect untidy profile).score ≤ (d.detect tidy profile).score ∧
        (SubScores.measure tidy).perfection = 3 / 5 ∧ (SubScores.measure untidy).perfection = 0 ∧
        (SubScores.measure tidy).chaos = 0 ∧ (SubScores.measure untidy).chaos = 3 / 5 := by
  have usable : Usable tidy := (signal_iff_usable _).mp (by decide +kernel)
  have usable' : Usable untidy := (signal_iff_usable _).mp (by decide +kernel)
  have raised : Raised "human_style.spacing_issues_ratio" tidy untidy := by
    constructor
    · intro other different
      exact (Table.get_insert _ _ _ _).trans (if_neg different)
    · exact ⟨3 / 10, 7 / 10, by decide +kernel, by decide +kernel, by norm_num⟩
  have notCritical : ∀ c ∈ (Profile.ofStats commentMeans 15).critical,
      c.name ≠ "human_style.spacing_issues_ratio" := by decide +kernel
  obtain ⟨-, human, -, -, -, spacing⟩ := checks_move_score_one_way
    (some (Profile.ofStats commentMeans 15)) BaselineDetector.defaultThresholds unscaled 6 usable
    usable' raised (fun p member => Option.some.inj member ▸ notCritical)
  exact ⟨usable, usable', raised, notCritical, (human spacing).1, by decide +kernel,
    by decide +kernel, by decide +kernel, by decide +kernel⟩

end Authorship.Detection
