import Authorship.Baseline.Profile
import Authorship.Detection.Blend
import Authorship.Detection.Indicator

/-
Scoring against the means of two corpora. Each critical feature votes for the mean that its value
is nearer to, and the three secondary signals are blended in, irregularity turned around.
-/
namespace Authorship.Detection

open Baseline Feature Scalar

variable {α : Type} [Scalar α]

/-- How machine-like a value is. Distances are measured in units of the gap between the means: at
either mean the score is at its end, and half way between them or far from both it is one half. -/
def featureScore (c : CriticalFeature α) (x : α) : α :=
  let spread := c.spread
  if spread ≤ zero then half
  else
    let toAi := abs (x - c.aiMean) / spread
    let toHuman := abs (x - c.humanMean) / spread
    if toAi < toHuman then half + 0.5 * clamp zero one (one - toAi)
    else if toHuman < toAi then half - 0.5 * clamp zero one (one - toHuman)
    else half

structure BaselineDetector (α : Type) where
  thresholds : Thresholds α
  blend : Blend α
  maxReasons : Nat

namespace BaselineDetector

def defaultThresholds : Thresholds α := ⟨0.65, 0.35⟩

/-- A detector always has a blend that was valid or has been normalized. -/
def make (thresholds : Thresholds α) (blend : Blend α) (maxReasons : Nat) : BaselineDetector α :=
  ⟨thresholds, blend.repair, maxReasons⟩

def default : BaselineDetector α := make defaultThresholds .default 6

def present (features : FeatureVector α) (profile : Profile α) : List (CriticalFeature α × α) :=
  profile.critical.filterMap fun c => (features.get? c.name).map (c, ·)

def leaning (score : α) : String := if half ≤ score then "AI" else "human"

def descriptionOf (name : String) : String :=
  ((lookup? name).map (·.description)).getD name

def criticalTerm (d : BaselineDetector α) (totalWeight : α) (c : CriticalFeature α) (x : α) :
    Contribution α :=
  let score := featureScore c x
  { key := c.name
    description := descriptionOf c.name ++ " near " ++ leaning score ++ " baseline"
    value := d.blend.baseline * c.weight / totalWeight * (score - half) }

def criticalTerms (d : BaselineDetector α) (features : FeatureVector α) (profile : Profile α) :
    List (Contribution α) :=
  let found := present features profile
  let totalWeight : α := sum (found.map fun (c, _) => c.weight)
  if totalWeight ≤ zero then []
  else found.map fun (c, x) => d.criticalTerm totalWeight c x

def secondaryTerms (d : BaselineDetector α) (sub : SubScores α) : List (Contribution α) := [
  { key := "perfection", description := "Polished formatting and naming"
    value := d.blend.perfection * (sub.perfection - half) },
  { key := "simplicity", description := "Simple control flow"
    value := d.blend.simplicity * (sub.simplicity - half) },
  { key := "chaos", description := "Absence of human irregularity"
    value := d.blend.chaos * ((one - sub.chaos) - half) }]

/-- Without a profile only the secondary signals move the score. -/
def terms (d : BaselineDetector α) (features : FeatureVector α) (profile : Option (Profile α)) :
    List (Contribution α) :=
  (profile.map (d.criticalTerms features)).getD [] ++ d.secondaryTerms (.measure features)

def detect (d : BaselineDetector α) (features : FeatureVector α) (profile : Option (Profile α)) :
    Assessment α :=
  if hasSignal features then
    assemble (d.terms features profile) d.thresholds d.maxReasons .baselineAware
  else insufficient .baselineAware

end BaselineDetector

end Authorship.Detection
