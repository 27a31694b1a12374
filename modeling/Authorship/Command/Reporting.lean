import Authorship.Command.Arguments
import Authorship.Command.Inputs
import Authorship.Report.Terminal

/- The commands that show something: verdicts, the features of one file, or a baseline. -/
namespace Authorship.Command

open Baseline Decimal Report

def fileReport (s : Config.Settings Float) (detection : Detection.Settings Float)
    (profile : Profile Float) (withFeatures : Bool) (f : FoundFile) : FileReport :=
  let features := extract s.analysis (Text.readable f.bytes) f.path
  { path := f.path
    language := .ofFilename f.path
    result := (Detection.detect detection features (some profile)).result
    features := if withFeatures then some features else none }

def writeTrouble (path : String) (e : DiskError) : Trouble :=
  ⟨"Failed to write " ++ path, [e.message]⟩

structure AnalyzeOptions where
  format : Format
  output : Option String
  strategy : Option Detection.Strategy
  stats : Option String
  withFeatures : Bool
  failsOnAi : Bool

def runAnalyze (d : Disk) (env : Environment) (s : Config.Settings Float) (path : String)
    (options : AnalyzeOptions) : Outcome :=
  match collect d path with
  | .error t => .failed d "" t
  | .ok found =>
    let detection := s.detection.withStrategy options.strategy
    let profile := (openProfile d env s options.stats).2
    let report : VerdictReport := {
      strategy := detection.strategy.key
      criticalCount := profile.critical.length
      files := found.map (fileReport s detection profile options.withFeatures)
      skipped := [] }
    let rendered := report.render options.format
    let written : Except Trouble (Disk × String) := match options.output with
      | none => .ok (d, rendered)
      | some target => match d.write target rendered with
        | .ok d => .ok (d, "")
        | .error e => .error (writeTrouble target e)
    match written with
    | .error t => .failed d "" t
    | .ok (d, output) =>
      let ai := report.summary.aiGenerated
      if options.failsOnAi && 0 < ai then
        ⟨d, 1, output, natText ai ++ " file(s) classified as AI-generated\n"⟩
      else .succeeded d output

def runFeatures (d : Disk) (env : Environment) (s : Config.Settings Float) (file : String)
    (format : Format) (stats : Option String) : Outcome :=
  match d.bytes? file with
  | none => .failed d "" ⟨"Not a file: " ++ file, []⟩
  | some bytes =>
    let features := extract s.analysis (Text.readable bytes) file
    let profile := (openProfile d env s stats).2
    .succeeded d ((FeatureReport.make file features profile).render format)

def runBaseline (d : Disk) (env : Environment) (s : Config.Settings Float)
    (stats : Option String) (format : Format) : Outcome :=
  let (source, profile) := openProfile d env s stats
  .succeeded d ((BaselineReport.mk source profile).render format)

end Authorship.Command
