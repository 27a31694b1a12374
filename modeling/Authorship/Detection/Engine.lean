import Authorship.Detection.BaselineAware
import Authorship.Detection.Heuristic
import Authorship.Text.Lines

/- Both ways of scoring, and which of them is used. -/
namespace Authorship.Detection

open Baseline Scalar

variable {α : Type}

inductive Strategy where
  | auto
  | heuristic
  | baseline
deriving DecidableEq, Repr

namespace Strategy

def key : Strategy → String
  | .auto => "auto"
  | .heuristic => "heuristic"
  | .baseline => "baseline"

def ofKey? : String → Option Strategy
  | "auto" => some .auto
  | "heuristic" => some .heuristic
  | "baseline" => some .baseline
  | _ => none

def unknownMessage (text : String) : String :=
  "Unknown strategy '" ++ text ++ "'. Valid strategies: auto, heuristic, baseline"

def parse (text : String) : Except String Strategy :=
  let lower := String.ofList (Text.lowerAscii text.toList)
  if lower = Method.baselineAware.key then .ok .baseline
  else
    match ofKey? lower with
    | some strategy => .ok strategy
    | none => .error (unknownMessage text)

def resolve (s : Strategy) (profile : Option (Profile α)) : Method :=
  match s with
  | .heuristic => .heuristic
  | .baseline => .baselineAware
  | .auto => if profile.any fun p => !p.isEmpty then .baselineAware else .heuristic

end Strategy

/-- How many reasons a result gives at least, if it has them, and at most. -/
def leastReasons : Nat := 5

def greatestReasons : Nat := 8

structure BaselineSettings (α : Type) where
  thresholds : Thresholds α
  blend : Blend α
deriving DecidableEq, Repr

structure Settings (α : Type) where
  strategy : Strategy
  maxReasons : Nat
  heuristic : Thresholds α
  baseline : BaselineSettings α
deriving DecidableEq, Repr

variable [Scalar α]

namespace Settings

def default : Settings α :=
  ⟨.auto, 6, HeuristicDetector.defaultThresholds, ⟨BaselineDetector.defaultThresholds, .default⟩⟩

def reasonLimit (c : Settings α) : Nat := max leastReasons (min greatestReasons c.maxReasons)

def withStrategy (c : Settings α) (s : Option Strategy) : Settings α :=
  { c with strategy := s.getD c.strategy }

end Settings

def detect (c : Settings α) (features : FeatureVector α) (profile : Option (Profile α)) :
    Assessment α :=
  match c.strategy.resolve profile with
  | .heuristic => (HeuristicDetector.mk c.heuristic c.reasonLimit).detect features
  | .baselineAware =>
    (BaselineDetector.make c.baseline.thresholds c.baseline.blend c.reasonLimit).detect
      features profile

end Authorship.Detection
