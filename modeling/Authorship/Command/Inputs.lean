import Authorship.Command.Outcome
import Authorship.Command.Walk
import Authorship.Config.Decode

/- What the commands work on: settings, a baseline profile, and source files. -/
namespace Authorship.Command

open Baseline

structure Environment where
  statsPath : Option String
  configHome : Option String
  now : String

def pathMissing (path : String) (causes : List String) : Trouble :=
  ⟨"Path does not exist: " ++ path, causes⟩

def settingsFile : String := "codeorigin.toml"

def settingsPaths (env : Environment) (explicit : Option String) : List String :=
  match explicit with
  | some path => [path]
  | none => ("./" ++ settingsFile) :: env.configHome.toList.map (· ++ "/codeorigin/config.toml")

/-- From the first file that can be read and holds settings, else the default ones. -/
def loadSettings (d : Disk) (env : Environment) (explicit : Option String) :
    Config.Settings Float :=
  ((settingsPaths env explicit).findSome? fun path =>
    (d.text? path).bind Config.Settings.parse).getD Config.Settings.default.repair

def openProfile (d : Disk) (env : Environment) (s : Config.Settings Float)
    (explicit : Option String) : String × Profile Float :=
  let path := s.statsPath explicit env.statsPath
  (path, loadProfileOr s.baseline.fallback (d.text? path) s.baseline.topCount)

/-- A hyphen alone means what is typed in, even where a directory has that name. -/
def isTypedIn (path : String) : Bool := Path.parts path = [.named "-"]

def collect (d : Disk) (path : String) : Except Trouble (List FoundFile) :=
  match (d.resolve path).toOption with
  | none => .error (pathMissing path [])
  | some place =>
    match d.find? place with
    | some (.file bytes) => .ok [⟨[(Path.fileName? path).getD path], bytes⟩]
    | _ => .ok (if isTypedIn path then [] else walk d path place)

end Authorship.Command
