import Authorship.Detection.Signal

/-
Three secondary signals, each the mean of a few graded checks: polished formatting, simple control
flow, and the irregularity of code written by hand.
-/
namespace Authorship.Detection

open Scalar

variable {α : Type}

inductive Relation where
  | atLeast
  | atMost
deriving DecidableEq, Repr

/-- A check with two bounds. Which bound is met decides how much it counts. -/
structure Indicator (α : Type) where
  feature : String
  relation : Relation
  strict : α
  lenient : α
  lenientScore : α
  needs : Option String := none
deriving DecidableEq, Repr

variable [Scalar α]

def perfectionIndicators : List (Indicator α) := [
  { feature := "ast.indentation_consistency", relation := .atLeast
    strict := 0.99, lenient := 0.95, lenientScore := 0.7 },
  { feature := "human_style.spacing_issues_ratio", relation := .atMost
    strict := 0.1, lenient := 0.5, lenientScore := 0.6 },
  { feature := "human_style.naming_inconsistency_ratio", relation := .atMost
    strict := 0.2, lenient := 0.8, lenientScore := 0.6 },
  { feature := "ast.variable_uniqueness_ratio", relation := .atLeast
    strict := 0.95, lenient := 0.8, lenientScore := 0.6 }]

def simplicityIndicators : List (Indicator α) := [
  { feature := "basic.cyclomatic_complexity", relation := .atMost
    strict := 2.0, lenient := 4.0, lenientScore := 0.6 },
  { feature := "ast.if_statements_per_loc", relation := .atMost
    strict := 0.02, lenient := 0.04, lenientScore := 0.6 },
  { feature := "ast.for_loops_per_loc", relation := .atMost
    strict := 0.02, lenient := 0.04, lenientScore := 0.6 },
  { feature := "complexity.maintainability_index", relation := .atLeast
    strict := 100.0, lenient := 80.0, lenientScore := 0.6 }]

def chaosIndicators : List (Indicator α) := [
  { feature := "naming.generic_var_ratio", relation := .atLeast
    strict := 0.4, lenient := 0.2, lenientScore := 0.6 },
  { feature := "ast.avg_variable_name_length", relation := .atMost
    strict := 2.5, lenient := 3.5, lenientScore := 0.6, needs := some "ast.variable_count" },
  { feature := "human_style.spacing_issues_ratio", relation := .atLeast
    strict := 1.0, lenient := 0.5, lenientScore := 0.6 },
  { feature := "ast.single_char_vars_ratio", relation := .atLeast
    strict := 0.3, lenient := 0.15, lenientScore := 0.6 }]

namespace Indicator

def isMet (i : Indicator α) (x bound : α) : Bool :=
  match i.relation with
  | .atLeast => bound ≤ x
  | .atMost => x ≤ bound

def grade (i : Indicator α) (x : α) : α :=
  if i.isMet x i.strict then one
  else if i.isMet x i.lenient then i.lenientScore
  else zero

def isApplicable (i : Indicator α) (features : FeatureVector α) : Bool :=
  i.needs.all fun needed => (features.get? needed).any (zero < ·)

def score? (i : Indicator α) (features : FeatureVector α) : Option α :=
  if i.isApplicable features then (features.get? i.feature).map i.grade else none

end Indicator

/-- The mean of the checks that can be made, one half if none can. -/
def meanScore (indicators : List (Indicator α)) (features : FeatureVector α) : α :=
  let scores := indicators.filterMap (·.score? features)
  if scores.isEmpty then half else mean scores

structure SubScores (α : Type) where
  perfection : α
  simplicity : α
  chaos : α
deriving DecidableEq, Repr

def SubScores.measure (features : FeatureVector α) : SubScores α :=
  ⟨meanScore perfectionIndicators features, meanScore simplicityIndicators features,
    meanScore chaosIndicators features⟩

end Authorship.Detection
