import Authorship.Analysis.Extraction
import Authorship.Baseline.Store
import Authorship.Detection.Engine

/- All settings together, and how values that cannot be used are repaired. -/
namespace Authorship.Detection.Thresholds

open Scalar

variable {α : Type} [Scalar α]

def inUnit (x : α) : Bool := isFinite x && zero ≤ x && x ≤ one

def isUsable (t : Thresholds α) : Bool := inUnit t.ai && inUnit t.human && t.human ≤ t.ai

/-- A pair that cannot be used is replaced as a whole. -/
def repair (t default : Thresholds α) : Thresholds α := if t.isUsable then t else default

end Authorship.Detection.Thresholds

namespace Authorship.Config

open Detection

variable {α : Type}

structure BaselineSettings where
  statsPath : Option String
  topCount : Nat
  fallback : Baseline.Fallback
deriving DecidableEq, Repr

namespace BaselineSettings

def default : BaselineSettings := ⟨none, Baseline.defaultTopCount, .empty⟩

/-- At least one critical feature is kept. -/
def repair (b : BaselineSettings) : BaselineSettings :=
  { b with topCount := if b.topCount = 0 then Baseline.defaultTopCount else b.topCount }

end BaselineSettings

structure Settings (α : Type) where
  analysis : Analysis.Settings α
  detection : Detection.Settings α
  baseline : BaselineSettings
  humanStyle : Analysis.StyleWeights α
deriving DecidableEq, Repr

variable [Scalar α]

def repairDetection (d : Detection.Settings α) : Detection.Settings α :=
  { d with
    heuristic := d.heuristic.repair HeuristicDetector.defaultThresholds
    baseline :=
      ⟨d.baseline.thresholds.repair BaselineDetector.defaultThresholds, d.baseline.blend.repair⟩ }

namespace Settings

def default : Settings α := ⟨.default, .default, .default, .default⟩

def repair (s : Settings α) : Settings α :=
  { s with
    analysis := { s.analysis with styleWeights := s.humanStyle }
    detection := repairDetection s.detection
    baseline := s.baseline.repair }

def defaultStatsPath : String := "feature_stats.json"

/-- Where the statistics are: as asked for, else as configured, else as the environment says
unless that is empty. -/
def statsPath (s : Settings α) (explicit environment : Option String) : String :=
  (explicit.or (s.baseline.statsPath.or (environment.filter (!·.isEmpty)))).getD defaultStatsPath

def fallbackProfile (s : Settings α) : Baseline.Profile α := s.baseline.fallback.profile

end Settings

end Authorship.Config
