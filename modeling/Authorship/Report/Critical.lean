import Authorship.Baseline.Profile
import Authorship.Json.Writer

/- The critical features of a baseline. -/
namespace Authorship.Report

open Baseline

structure BaselineReport where
  source : String
  profile : Profile Float

def criticalJson (c : CriticalFeature Float) : Json.Value := .object [
  ("name", .text c.name),
  ("ai_mean", .real c.aiMean),
  ("human_mean", .real c.humanMean),
  ("effect_size", .real c.effectSize),
  ("weight", .real c.weight),
  ("ai_higher", .bool c.isHigherInAi)]

def criticalListJson (cs : List (CriticalFeature Float)) : Json.Value := .list (cs.map criticalJson)

def BaselineReport.toJson (r : BaselineReport) : Json.Value := .object [
  ("source", .text r.source),
  ("summary", .object [
    ("ai_features", .int r.profile.stats.ai.size),
    ("human_features", .int r.profile.stats.human.size),
    ("critical_count", .int r.profile.critical.length),
    ("top", criticalListJson r.profile.strongest)]),
  ("critical", criticalListJson r.profile.critical)]

end Authorship.Report
