import Authorship.Config.Settings
import Authorship.Document.Decode
import Authorship.Toml.Reader

/- Reading settings from a tree, and all of them from a TOML text. What is missing is default. -/
namespace Authorship.Config

open Document

variable {α : Type} [Readable α]

def decodeStyleWeights (e : Encoding) (n : Node α) : Option (Analysis.StyleWeights α) := do
  let default := Analysis.StyleWeights.default
  let fields ← e.fields? ["spacing", "indentation", "naming", "formatting"] n
  let spacing ← optional? fields "spacing" Node.number? default.spacing
  let indentation ← optional? fields "indentation" Node.number? default.indentation
  let naming ← optional? fields "naming" Node.number? default.naming
  let formatting ← optional? fields "formatting" Node.number? default.formatting
  return ⟨spacing, indentation, naming, formatting⟩

/-- The style weights are not among the fields. -/
def decodeAnalysis (e : Encoding) (n : Node α) : Option (Analysis.Settings α) := do
  let default : Analysis.Settings α := .default
  let fields ← e.fields? ["max_copy_paste_lines", "disabled_analyzers", "parallel"] n
  let scanLimit ← optional? fields "max_copy_paste_lines" Node.natural? default.scanLimit
  let disabled ←
    optional? fields "disabled_analyzers" (Node.items? (e.choice? Analysis.Family.ofKey?))
      default.disabled
  let isParallel ← optional? fields "parallel" Node.flag? default.isParallel
  return ⟨scanLimit, disabled, isParallel, default.styleWeights⟩

def decodeThresholds (e : Encoding) (n : Node α) : Option (Detection.Thresholds α) := do
  let default := Detection.HeuristicDetector.defaultThresholds
  let fields ← e.fields? ["ai", "human"] n
  let ai ← optional? fields "ai" Node.number? default.ai
  let human ← optional? fields "human" Node.number? default.human
  return ⟨ai, human⟩

def decodeBlend (e : Encoding) (n : Node α) : Option (Detection.Blend α) := do
  let default := Detection.Blend.default
  let fields ← e.fields? ["baseline", "perfection", "simplicity", "chaos"] n
  let baseline ← optional? fields "baseline" Node.number? default.baseline
  let perfection ← optional? fields "perfection" Node.number? default.perfection
  let simplicity ← optional? fields "simplicity" Node.number? default.simplicity
  let chaos ← optional? fields "chaos" Node.number? default.chaos
  return ⟨baseline, perfection, simplicity, chaos⟩

def decodeBaselineDetection (e : Encoding) (n : Node α) :
    Option (Detection.BaselineSettings α) := do
  let default := Detection.BaselineDetector.defaultThresholds
  let fields ← e.fields? ["ai", "human", "blend"] n
  let ai ← optional? fields "ai" Node.number? default.ai
  let human ← optional? fields "human" Node.number? default.human
  let blend ← optional? fields "blend" (decodeBlend e) .default
  return ⟨⟨ai, human⟩, blend⟩

def decodeDetection (e : Encoding) (n : Node α) : Option (Detection.Settings α) := do
  let default : Detection.Settings α := .default
  let fields ← e.fields? ["strategy", "max_reasons", "heuristic", "baseline"] n
  let strategy ←
    optional? fields "strategy" (e.choice? Detection.Strategy.ofKey?) default.strategy
  let maxReasons ← optional? fields "max_reasons" Node.natural? default.maxReasons
  let heuristic ← optional? fields "heuristic" (decodeThresholds e) default.heuristic
  let baseline ← optional? fields "baseline" (decodeBaselineDetection e) default.baseline
  return ⟨strategy, maxReasons, heuristic, baseline⟩

def decodeBaseline (e : Encoding) (n : Node α) : Option BaselineSettings := do
  let default := BaselineSettings.default
  let fields ← e.fields? ["stats_path", "top_k", "fallback"] n
  let statsPath ← optional? fields "stats_path" (fun n => n.text?.map some) default.statsPath
  let topCount ← optional? fields "top_k" Node.natural? default.topCount
  let fallback ← optional? fields "fallback" (e.choice? Baseline.Fallback.ofKey?) default.fallback
  return ⟨statsPath, topCount, fallback⟩

def decodeSettings (e : Encoding) (n : Node α) : Option (Settings α) := do
  let default : Settings α := .default
  let fields ← e.fields? ["analysis", "detection", "baseline", "human_style"] n
  let analysis ← optional? fields "analysis" (decodeAnalysis e) default.analysis
  let detection ← optional? fields "detection" (decodeDetection e) default.detection
  let baseline ← optional? fields "baseline" (decodeBaseline e) default.baseline
  let humanStyle ← optional? fields "human_style" (decodeStyleWeights e) default.humanStyle
  return ⟨analysis, detection, baseline, humanStyle⟩

/-- The settings that a TOML text gives, repaired, or none if it is malformed or a known key has
a value of the wrong type. -/
def Settings.parse (text : String) : Option (Settings α) := do
  let root ← Toml.read text
  let settings ← decodeSettings .toml (ofToml root)
  return settings.repair

end Authorship.Config
