import Authorship.Baseline.Comparison
import Authorship.Json.Writer
import Authorship.Source.Language

/- The features of one file by namespace, and how they compare with a baseline. -/
namespace Authorship.Report

open Baseline

structure FeatureGroup (α : Type) where
  group : String
  features : List (String × α)
deriving DecidableEq, Repr

/-- The namespaces that have features, in the order of the schema. -/
def featureGroups {α : Type} (features : FeatureVector α) : List (FeatureGroup α) :=
  (Feature.namespaces.map fun group => ⟨group, features.inNamespace group⟩).filter
    (!·.features.isEmpty)

structure FeatureReport where
  path : String
  language : Source.Language
  groups : List (FeatureGroup Float)
  comparison : List (Comparison Float)

def FeatureReport.make (path : String) (features : FeatureVector Float)
    (profile : Profile Float) : FeatureReport where
  path := path
  language := .ofFilename path
  groups := featureGroups features
  comparison := compareToAi features profile

def FeatureGroup.toJson (g : FeatureGroup Float) : Json.Value := .object [
  ("namespace", .text g.group),
  ("features", .list (g.features.map fun (name, x) => .list [.text name, .real x]))]

def comparisonJson (c : Comparison Float) : Json.Value := .object [
  ("feature", .text c.feature),
  ("category", .text c.category),
  ("value", .real c.value),
  ("ai_mean", .real c.aiMean),
  ("difference", .real c.difference),
  ("difference_percent", .real c.percent),
  ("interpretation", .text c.interpretation.key)]

def FeatureReport.toJson (r : FeatureReport) : Json.Value :=
  .object ([("path", .text r.path), ("language", .text r.language.key),
    ("groups", .list (r.groups.map (·.toJson)))] ++
      if r.comparison.isEmpty then [] else
        [("comparison", .list (r.comparison.map comparisonJson))])

end Authorship.Report
