import Authorship.Command.Calibration
import Authorship.Command.Reporting
import Authorship.Config.Template

/- The program as a function of its arguments and of the files that there are. -/
namespace Authorship.Command

def runInit (d : Disk) (path : String) : Outcome :=
  match d.resolve path with
  | .error e => .failed d "" (pathMissing path [e.message])
  | .ok place =>
    if !(d.find? place).any (·.isDirectory) then
      .failed d "" ⟨"Path is not a directory: " ++ d.absoluteName place, []⟩
    else
      let names := place ++ [settingsFile]
      let shown := d.absoluteName names
      if (d.find? names).isSome then
        .succeeded d ("✓ Already initialized at " ++ shown ++ "\n")
      else
        .succeeded (d.put (.file Config.template.toUTF8.toList) names)
          ("✓ Created " ++ shown ++ "\n\nNext steps:\n" ++
            "  codeorigin calibrate --ai <DIR> --human <DIR> " ++
            "Build a baseline from labeled corpora\n" ++
            "  codeorigin analyze . Classify files\n")

def runTask (d : Disk) (env : Environment) (s : Config.Settings Float) : Task → Outcome
  | .init path => runInit d path
  | .analyze path format output strategy stats withFeatures failsOnAi =>
    runAnalyze d env s path ⟨format, output, strategy, stats, withFeatures, failsOnAi⟩
  | .features file format stats => runFeatures d env s file format stats
  | .calibrate ai human output => runCalibrate d env s ai human output
  | .baseline stats format => runBaseline d env s stats format

def usage : String :=
  "Usage: codeorigin [--log-level LEVEL] [--config FILE] [--workers N] COMMAND\n\n" ++
  "Commands:\n" ++
  "  init [PATH]\n" ++
  "  analyze [PATH] [-f FORMAT] [-o FILE] [--strategy NAME] [--stats FILE] [--features]" ++
  " [--fail-on-ai]\n" ++
  "  features FILE [-f FORMAT] [--stats FILE]\n" ++
  "  calibrate --ai DIR --human DIR [-o FILE]\n" ++
  "  baseline [-f FORMAT] [--stats FILE]\n"

def wrongArguments : Nat := 2

def run (d : Disk) (env : Environment) (arguments : List String) : Outcome :=
  match parseArguments arguments with
  | none => ⟨d, wrongArguments, "", usage⟩
  | some .help => .succeeded d usage
  | some .version => .succeeded d ("codeorigin " ++ Report.programVersion ++ "\n")
  | some (.run config task) => runTask d env (loadSettings d env config) task

end Authorship.Command
