import Authorship.Command.Arguments
import Authorship.Command.Inputs

/- The part of the disk that a command looks at or changes, known before it runs. -/
namespace Authorship.Command

namespace Task

def target? : Task → Option String
  | .init path => some (path ++ "/" ++ settingsFile)
  | .analyze _ _ output _ _ _ _ => output
  | .calibrate _ _ output => some output
  | .features _ _ _ | .baseline _ _ => none

/-- Paths below which every source file counts. -/
def trees : Task → List String
  | .analyze path _ _ _ _ _ _ => [path]
  | .calibrate ai human _ => [ai, human]
  | .init _ | .features _ _ _ | .baseline _ _ => []

def stats? : Task → Option String
  | .analyze _ _ _ _ stats _ _ | .features _ _ stats | .baseline stats _ => stats
  | .init _ | .calibrate _ _ _ => none

/-- Paths of which only what stands there counts. -/
def places (t : Task) (env : Environment) (s : Config.Settings Float) : List String :=
  (match t with
    | .init path => [path]
    | .features file _ _ => [file]
    | .analyze _ _ _ _ _ _ _ | .calibrate _ _ _ | .baseline _ _ => []) ++
  [s.statsPath t.stats? env.statsPath] ++ t.target?.toList

end Task

def rulePlaces : List (List String) :=
  (ruleFiles ++ repositoryEntries).map ([·]) ++ [".git" :: excludeFile]

/-- Whether a walk looks into a file with this name: for source text or for rules. -/
def isReadOnWalk (name : String) : Bool :=
  Source.Language.isSourceFile name || rulePlaces.any (·.getLast? = some name)

mutual

/-- The contents of files that stand in place of a repository. -/
def repositoryLinks : Entry → List (List UInt8)
  | .file _ => []
  | .directory children => linksAmong children

def linksAmong : List (String × Entry) → List (List UInt8)
  | [] => []
  | (".git", .file bytes) :: rest => bytes :: linksAmong rest
  | (_, entry) :: rest => repositoryLinks entry ++ linksAmong rest

end

def userConfigHome (configHome home : Option String) : Option String :=
  (configHome.filter (·.toList.head? = some '/')).or
    ((home.filter (!·.isEmpty)).map (· ++ "/.config"))

end Authorship.Command
