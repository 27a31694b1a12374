import Authorship.Report.Critical
import Authorship.Report.Features
import Authorship.Report.Format
import Authorship.Report.Verdicts

/- Reports as text for a terminal, and the choice among the formats. -/
namespace Authorship.Report

open Decimal Detection

def rendition (code text : String) : String := "\x1b[" ++ code ++ "m" ++ text ++ "\x1b[0m"

def bold : String → String := rendition "1"

def dim : String → String := rendition "2"

def red : String := "31"

def green : String := "32"

def yellow : String := "33"

def predictionColor : Prediction → String
  | .aiGenerated => red
  | .humanWritten => green
  | .uncertain => yellow

def predictionTag : Prediction → String
  | .aiGenerated => "[AI]"
  | .humanWritten => "[HU]"
  | .uncertain => "[??]"

def line (text : String) : String := text ++ "\n"

def pathWidth : Nat := 40

def ellipsis : String := "..."

def shorten (path : String) : String :=
  if path.length ≤ pathWidth then path
  else
    let kept := pathWidth - ellipsis.length
    ellipsis ++ String.ofList (path.toList.drop (path.length - kept))

def reasonsShown : Nat := 3

def fileLines (f : FileReport) : String :=
  let r := f.result
  line ("  " ++ rendition (predictionColor r.prediction) (predictionTag r.prediction) ++ "  " ++
    padRight pathWidth (shorten f.path) ++ "  " ++ bold r.prediction.label ++ " " ++
    dim ("(confidence " ++ fixedText 2 r.confidence ++ ", score " ++ fixedText 3 r.score ++ ")")) ++
  String.join ((r.reasoning.take reasonsShown).map fun reason =>
    line ("        " ++ dim ("- " ++ reason)))

def skippedLines (skipped : List SkippedFile) : String :=
  if skipped.isEmpty then ""
  else
    line ("\n" ++ bold "SKIPPED") ++
      String.join (skipped.map fun f => line ("  " ++ dim (f.path ++ ": " ++ f.reason)))

def summaryLine (s : Summary) : String :=
  let colored (p : Prediction) (n : Nat) (what : String) :=
    rendition (predictionColor p) (natText n ++ " " ++ what)
  line ("\n" ++ bold "SUMMARY" ++ "  " ++ natText s.total ++ " files: " ++
    colored .aiGenerated s.aiGenerated "AI-generated" ++ " | " ++
    colored .humanWritten s.humanWritten "human-written" ++ " | " ++
    colored .uncertain s.uncertain "uncertain")

def ruleWidth : Nat := 38

def VerdictReport.terminalText (r : VerdictReport) : String :=
  line ("\n" ++ bold "Code Origin Analysis") ++
    line (dim (String.ofList (List.replicate ruleWidth '─'))) ++
    line ("Strategy: " ++ bold r.strategy ++ "  Critical features: " ++ natText r.criticalCount) ++
    "\n" ++
    (if r.files.isEmpty then line (dim "No C/C++ files found.") else "") ++
    String.join (r.files.map fileLines) ++
    skippedLines r.skipped ++
    summaryLine r.summary

def upperAscii (text : String) : String := String.ofList (text.toList.map Char.toUpper)

def groupLines (g : FeatureGroup Float) : String :=
  line ("\n" ++ bold (upperAscii g.group)) ++
    String.join (g.features.map fun (name, x) =>
      line ("  " ++ padRight 36 name ++ " " ++ padLeft 12 (fixedText 4 x)))

def interpretationColor : Baseline.Interpretation → String
  | .similar => red
  | .higher | .lower => green

def comparisonLine (c : Baseline.Comparison Float) : String :=
  line ("  " ++ padRight 40 c.feature ++ " " ++ padLeft 9 (fixedText 4 c.value) ++ " " ++
    padLeft 10 (fixedText 4 c.aiMean) ++ " " ++ padLeft 9 (signedFixedText 1 c.percent) ++ "  " ++
    rendition (interpretationColor c.interpretation) c.interpretation.label)

def comparisonHeading : String :=
  "  FEATURE                                     VALUE    AI MEAN     DIFF%"

def FeatureReport.terminalText (r : FeatureReport) : String :=
  line ("\n" ++ bold "Features" ++ " " ++ r.path ++ " " ++
      dim ("(" ++ r.language.display ++ ")")) ++
    String.join (r.groups.map groupLines) ++
    if r.comparison.isEmpty then ""
    else
      line ("\n" ++ bold "COMPARISON WITH AI BASELINE") ++ line (dim comparisonHeading) ++
        String.join (r.comparison.map comparisonLine)

def criticalHeading : String :=
  "  #   FEATURE                                    AI MEAN  HUMAN MEAN   EFFECT  WEIGHT"

def criticalLine (rank : Nat) (c : Baseline.CriticalFeature Float) : String :=
  line ("  " ++ dim (padLeft 2 (natText rank)) ++ "  " ++ padRight 40 c.name ++ " " ++
    padLeft 9 (fixedText 4 c.aiMean) ++ " " ++ padLeft 11 (fixedText 4 c.humanMean) ++ " " ++
    padLeft 8 (fixedText 3 c.effectSize) ++ " " ++ padLeft 7 (fixedText 2 c.weight))

def criticalLines (rank : Nat) : List (Baseline.CriticalFeature Float) → String
  | [] => ""
  | c :: cs => criticalLine rank c ++ criticalLines (rank + 1) cs

def BaselineReport.terminalText (r : BaselineReport) : String :=
  line ("\n" ++ bold "Baseline" ++ " " ++ dim r.source) ++
    line ("AI features: " ++ natText r.profile.stats.ai.size ++ "  Human features: " ++
      natText r.profile.stats.human.size ++ "  Critical: " ++
      natText r.profile.critical.length) ++
    if r.profile.critical.isEmpty then
      line ("\n" ++ dim "No critical features; detection falls back to fixed rules.")
    else line ("\n" ++ dim criticalHeading) ++ criticalLines 1 r.profile.critical

def VerdictReport.render (r : VerdictReport) : Format → String
  | .text => r.terminalText
  | .json => Json.pretty r.toJson
  | .jsonl => r.jsonLines

def FeatureReport.render (r : FeatureReport) : Format → String
  | .text => r.terminalText
  | .json => Json.pretty r.toJson
  | .jsonl => Json.compact r.toJson

def BaselineReport.render (r : BaselineReport) : Format → String
  | .text => r.terminalText
  | .json => Json.pretty r.toJson
  | .jsonl => Json.compact r.toJson

end Authorship.Report
