import Authorship.Detection.Signal

/-
Scoring by fixed rules. A rule maps one feature linearly from a range into zero to one and weighs
the result; rules that speak for a machine weigh positive, those that speak for a human negative.
-/
namespace Authorship.Detection

open Scalar

variable {α : Type}

inductive Direction where
  | higher
  | lower
deriving DecidableEq, Repr

structure Rule (α : Type) where
  id : String
  feature : String
  low : α
  high : α
  direction : Direction
  gate : Option α
  weight : α
  description : String
deriving DecidableEq, Repr

variable [Scalar α]

def aiRules : List (Rule α) := [
  ⟨"comment_ratio", "basic.comment_ratio", 0.02, 0.25, .higher, some 0.3, 0.12,
    "Consistent commenting"⟩,
  ⟨"descriptive_names", "naming.descriptive_var_ratio", 0.3, 0.9, .higher, some 0.4, 0.15,
    "Descriptive variable names"⟩,
  ⟨"indentation_consistency", "ast.indentation_consistency", 0.8, 1.0, .higher, some 0.5, 0.06,
    "Uniform indentation"⟩,
  ⟨"template_usage", "ai_pattern.template_usage_score", 0.0, 0.15, .higher, some 0.2, 0.10,
    "Textbook template idioms"⟩,
  ⟨"error_handling", "ai_pattern.error_handling_score", 0.0, 0.1, .higher, some 0.3, 0.06,
    "Systematic error handling"⟩,
  ⟨"boilerplate", "ai_pattern.boilerplate_ratio", 0.05, 0.35, .higher, some 0.3, 0.06,
    "Boilerplate structure"⟩,
  ⟨"verb_functions", "naming.verb_function_ratio", 0.0, 0.6, .higher, some 0.3, 0.08,
    "Verb-prefixed function names"⟩,
  ⟨"meaningful_names", "naming.meaningful_names_score", 0.4, 0.85, .higher, some 0.4, 0.06,
    "Word-like identifiers"⟩,
  ⟨"blank_lines", "basic.blank_ratio", 0.03, 0.2, .higher, none, 0.05,
    "Regular blank-line spacing"⟩,
  ⟨"variable_name_length", "ast.avg_variable_name_length", 3.0, 10.0, .higher, none, 0.06,
    "Long variable names"⟩]

def humanRules : List (Rule α) := [
  ⟨"generic_names", "naming.generic_var_ratio", 0.2, 0.7, .higher, some 0.3, -0.15,
    "Generic variable names"⟩,
  ⟨"single_char_vars", "ast.single_char_vars_ratio", 0.1, 0.5, .higher, none, -0.08,
    "Single-character variables"⟩,
  ⟨"human_style", "human_style.overall_human_score", 0.2, 0.7, .higher, none, -0.15,
    "Irregular human formatting"⟩,
  ⟨"short_code", "basic.loc", 10.0, 40.0, .lower, some 0.3, -0.10,
    "Short code"⟩,
  ⟨"minimal_comments", "basic.comment_ratio", 0.0, 0.05, .lower, some 0.5, -0.08,
    "Few or no comments"⟩,
  ⟨"duplicate_lines", "redundancy.duplicate_line_ratio", 0.05, 0.3, .higher, none, -0.06,
    "Repeated lines"⟩,
  ⟨"cognitive_density", "complexity.cognitive_per_loc", 0.1, 0.5, .higher, none, -0.06,
    "Dense nested logic"⟩,
  ⟨"nested_control", "ast.nested_control_depth", 2.0, 5.0, .higher, none, -0.05,
    "Deeply nested control flow"⟩]

namespace Rule

/-- Where a value lies in the range, from zero at the weak end to one at the strong end. -/
def normalize (r : Rule α) (x : α) : α :=
  let span := r.high - r.low
  let t := if zero < span then clamp zero one ((x - r.low) / span) else zero
  match r.direction with
  | .higher => t
  | .lower => one - t

def weigh (r : Rule α) (x : α) : α :=
  let normalized := r.normalize x
  match r.gate with
  | some gate => if normalized ≤ gate then zero else r.weight * normalized
  | none => r.weight * normalized

def evaluate (r : Rule α) (features : FeatureVector α) : α :=
  match features.get? r.feature with
  | some x => r.weigh x
  | none => zero

end Rule

structure HeuristicDetector (α : Type) where
  thresholds : Thresholds α
  maxReasons : Nat

namespace HeuristicDetector

def defaultThresholds : Thresholds α := ⟨0.60, 0.40⟩

def default : HeuristicDetector α := ⟨defaultThresholds, 6⟩

def terms (features : FeatureVector α) : List (Contribution α) :=
  (aiRules ++ humanRules).map fun r : Rule α => ⟨r.id, r.description, r.evaluate features⟩

def detect (d : HeuristicDetector α) (features : FeatureVector α) : Assessment α :=
  if hasSignal features then assemble (terms features) d.thresholds d.maxReasons .heuristic
  else insufficient .heuristic

end HeuristicDetector

end Authorship.Detection
