import Authorship.Detection.Result
import Authorship.Feature.Vector
import Authorship.Json.Writer
import Authorship.Source.Language

/- The verdicts on a number of files. -/
namespace Authorship.Report

open Detection

structure FileReport where
  path : String
  language : Source.Language
  result : Result
  features : Option (FeatureVector Float)

structure SkippedFile where
  path : String
  reason : String
deriving DecidableEq, Repr

structure Summary where
  total : Nat
  aiGenerated : Nat
  humanWritten : Nat
  uncertain : Nat
deriving DecidableEq, Repr

def tally (predictions : List Prediction) : Summary where
  total := predictions.length
  aiGenerated := predictions.count .aiGenerated
  humanWritten := predictions.count .humanWritten
  uncertain := predictions.count .uncertain

def programVersion : String := "0.1.0"

structure VerdictReport where
  strategy : String
  criticalCount : Nat
  files : List FileReport
  skipped : List SkippedFile

def featuresJson (features : FeatureVector Float) : Json.Value :=
  .object (features.entries.map fun (name, x) => (name, .real x))

def FileReport.toJson (f : FileReport) : Json.Value :=
  .object ([("path", .text f.path), ("language", .text f.language.key),
    ("result", f.result.toJson)] ++
      f.features.toList.map fun features => ("features", featuresJson features))

def SkippedFile.toJson (f : SkippedFile) : Json.Value :=
  .object [("path", .text f.path), ("reason", .text f.reason)]

def Summary.toJson (s : Summary) : Json.Value := .object [
  ("total", .int s.total), ("ai_generated", .int s.aiGenerated),
  ("human_written", .int s.humanWritten), ("uncertain", .int s.uncertain)]

namespace VerdictReport

def summary (r : VerdictReport) : Summary := tally (r.files.map (·.result.prediction))

def toJson (r : VerdictReport) : Json.Value :=
  .object ([("version", .text programVersion), ("strategy", .text r.strategy),
    ("critical_features", .int r.criticalCount), ("summary", r.summary.toJson),
    ("files", .list (r.files.map (·.toJson)))] ++
      if r.skipped.isEmpty then [] else [("skipped", .list (r.skipped.map (·.toJson)))])

def jsonLines (r : VerdictReport) : String :=
  String.join (r.files.map fun f => Json.compact f.toJson ++ "\n")

end VerdictReport

end Authorship.Report
