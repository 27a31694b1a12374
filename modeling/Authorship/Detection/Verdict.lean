import Authorship.Scalar
import Authorship.Sorting
import Authorship.Table

/- From the terms of a score to a verdict with its reasons. -/
namespace Authorship.Detection

open Scalar

inductive Prediction where
  | aiGenerated
  | humanWritten
  | uncertain
deriving DecidableEq, Repr

def Prediction.key : Prediction → String
  | .aiGenerated => "ai_generated"
  | .humanWritten => "human_written"
  | .uncertain => "uncertain"

def Prediction.label : Prediction → String
  | .aiGenerated => "AI-generated"
  | .humanWritten => "Human-written"
  | .uncertain => "Uncertain"

def Prediction.ofKey? : String → Option Prediction
  | "ai_generated" => some .aiGenerated
  | "human_written" => some .humanWritten
  | "uncertain" => some .uncertain
  | _ => none

inductive Method where
  | heuristic
  | baselineAware
deriving DecidableEq, Repr

def Method.key : Method → String
  | .heuristic => "heuristic-weighted"
  | .baselineAware => "baseline-aware"

def Method.ofKey? : String → Option Method
  | "heuristic-weighted" => some .heuristic
  | "baseline-aware" => some .baselineAware
  | _ => none

variable {α : Type}

structure Thresholds (α : Type) where
  ai : α
  human : α
deriving DecidableEq, Repr

/-- One term of a score. Terms lean towards machine-written when they are positive. -/
structure Contribution (α : Type) where
  key : String
  description : String
  value : α
deriving DecidableEq, Repr

inductive Reason (α : Type) where
  | noCode
  | term (description : String) (value : α)
deriving DecidableEq, Repr

structure Assessment (α : Type) where
  prediction : Prediction
  confidence : α
  score : α
  reasons : List (Reason α)
  contributions : Table α
  method : Method

variable [Scalar α]

def half : α := 0.5

def round3 (x : α) : α := round (x * count 1000) / count 1000

/-- Both comparisons are strict, and the upper threshold is looked at first. -/
def Thresholds.verdict (t : Thresholds α) (score : α) : Prediction × α :=
  if t.ai < score then (.aiGenerated, round3 score)
  else if score < t.human then (.humanWritten, round3 (one - score))
  else (.uncertain, half)

def rawScore (terms : List (Contribution α)) : α := half + sum (terms.map (·.value))

def clampScore (raw : α) : α := if isFinite raw then clamp zero one raw else half

/-- The terms that count for anything, the largest first and equal ones by key. -/
def rankedTerms (terms : List (Contribution α)) : List (Contribution α) :=
  sortBy (largerFirst (fun c => abs c.value) (·.key)) (terms.filter fun c => !(c.value == zero))

def assemble (terms : List (Contribution α)) (thresholds : Thresholds α) (maxReasons : Nat)
    (method : Method) : Assessment α :=
  let score := clampScore (rawScore terms)
  let (prediction, confidence) := thresholds.verdict score
  { prediction, confidence, score
    reasons := ((rankedTerms terms).take maxReasons).map fun c => .term c.description c.value
    contributions := .ofList (terms.map fun c => (c.key, c.value))
    method }

def insufficient (method : Method) : Assessment α where
  prediction := .uncertain
  confidence := zero
  score := half
  reasons := [.noCode]
  contributions := .empty
  method

end Authorship.Detection
