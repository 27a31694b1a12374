import Authorship.Analysis.Complexity
import Authorship.Analysis.Idiom
import Authorship.Analysis.Naming
import Authorship.Analysis.Redundancy
import Authorship.Analysis.Style
import Authorship.Feature.Vector

/- From a source file to its feature vector. -/
namespace Authorship

open Analysis

namespace Analysis

/-- The families of measurements that can be left out. The basic one cannot. -/
inductive Family where
  | structural
  | redundancy
  | naming
  | complexity
  | aiPattern
  | humanStyle
deriving DecidableEq, Repr

namespace Family

def all : List Family :=
  [.structural, .redundancy, .naming, .complexity, .aiPattern, .humanStyle]

def key : Family → String
  | .structural => "structural"
  | .redundancy => "redundancy"
  | .naming => "naming"
  | .complexity => "complexity"
  | .aiPattern => "ai_pattern"
  | .humanStyle => "human_style"

def ofKey? (key : String) : Option Family := all.find? (·.key = key)

def featureNamespace : Family → String
  | .structural => "ast"
  | .redundancy => "redundancy"
  | .naming => "naming"
  | .complexity => "complexity"
  | .aiPattern => "ai_pattern"
  | .humanStyle => "human_style"

end Family

structure Settings (α : Type) where
  scanLimit : Nat
  disabled : List Family
  /-- Kept for whoever runs the measurements; it does not change them. -/
  isParallel : Bool
  styleWeights : StyleWeights α
deriving DecidableEq, Repr

def defaultScanLimit : Nat := 5000

variable {α : Type}

def Settings.default [Scalar α] : Settings α := ⟨defaultScanLimit, [], true, .default⟩

def Settings.enabled (c : Settings α) : List Family := Family.all.filter (!c.disabled.contains ·)

def Settings.namespaces (c : Settings α) : List String :=
  "basic" :: c.enabled.map (·.featureNamespace)

variable [Analytic α]

def Family.measure (c : Settings α) (s : Source.Prepared) : Family → Measurements α
  | .structural => structureMeasurements s
  | .redundancy => redundancyMeasurements c.scanLimit s
  | .naming => namingMeasurements s
  | .complexity => complexityMeasurements s
  | .aiPattern => idiomMeasurements s
  | .humanStyle => styleMeasurements c.styleWeights s

def inGroup (group : String) (ms : Measurements α) : Measurements α :=
  ms.map fun (name, x) => (Feature.joinName group name, x)

def measurements (c : Settings α) (s : Source.Prepared) : Measurements α :=
  inGroup "basic" (basicMeasurements s) ++
    c.enabled.flatMap fun family => inGroup family.featureNamespace (family.measure c s)

end Analysis

variable {α : Type} [Analytic α]

def extractPrepared (c : Settings α) (s : Source.Prepared) : FeatureVector α :=
  .ofList (measurements c s)

def extract (c : Settings α) (text filename : String) : FeatureVector α :=
  extractPrepared c (Source.prepare text filename)

end Authorship
