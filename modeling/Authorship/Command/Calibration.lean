import Authorship.Baseline.Accumulator
import Authorship.Command.Inputs

/- The command that makes statistics of two corpora. -/
namespace Authorship.Command

open Baseline Decimal

def corpusFiles (d : Disk) (path : String) : Except Trouble (List FoundFile) :=
  match collect d path with
  | .ok [] => .error ⟨"No C/C++ files found in " ++ path, []⟩
  | other => other

def firstNonDirectory (d : Disk) (paths : List String) : Option String :=
  paths.find? (!d.isDirectory ·)

def collectCorpora (d : Disk) (ai human : String) :
    Except Trouble (List FoundFile × List FoundFile) := do
  match firstNonDirectory d [ai, human] with
  | some path => throw ⟨"Corpus is not a directory: " ++ path, []⟩
  | none => return (← corpusFiles d ai, ← corpusFiles d human)

def accumulate (s : Config.Settings Float) (side : Side) (a : Accumulator Float)
    (files : List FoundFile) : Accumulator Float :=
  files.foldl (fun a f => a.add side (extract s.analysis (Text.readable f.bytes) f.path)) a

/-- A failure to store the statistics has two causes, the step and what the system says. -/
def storeTrouble (target place : String) (e : DiskError) : Trouble :=
  ⟨"Failed to write " ++ target, ["Failed to read " ++ place ++ ": " ++ e.message, e.message]⟩

def store (d : Disk) (target text : String) : Except Trouble Disk :=
  match d.createParent target with
  | .error (parent, e) => .error (storeTrouble target parent e)
  | .ok d =>
    match d.write target text with
    | .ok d => .ok d
    | .error e => .error (storeTrouble target target e)

def strongestLine (c : CriticalFeature Float) : String :=
  "    " ++ padRight 40 c.name ++ " effect " ++ padLeft 6 (fixedText 3 c.effectSize) ++ "  (" ++
    (if c.isHigherInAi then "AI" else "human") ++ " higher)\n"

def strongestLines (p : Profile Float) : String :=
  if p.strongest.isEmpty then
    "  ⚠ No feature separates the corpora; detection will use fixed rules.\n"
  else "\n  Strongest features:\n" ++ String.join (p.strongest.map strongestLine)

def runCalibrate (d : Disk) (env : Environment) (s : Config.Settings Float)
    (ai human target : String) : Outcome :=
  match collectCorpora d ai human with
  | .error t => .failed d "" t
  | .ok (aiFiles, humanFiles) =>
    let a := accumulate s .human (accumulate s .ai .empty aiFiles) humanFiles
    let heading := "\n▶ Calibrating from " ++ natText (aiFiles.length + humanFiles.length) ++
      " files\n\n"
    match store d target (a.fileText env.now) with
    | .error t => .failed d heading t
    | .ok d =>
      .succeeded d (heading ++ "  AI samples: " ++ natText a.ai.samples ++ "  Human samples: " ++
        natText a.human.samples ++ "\n" ++
        strongestLines (.ofStats a.stats s.baseline.topCount) ++
        "\n✓ Saved to " ++ target ++ "\n\n")

end Authorship.Command
