import Authorship.Command.Disk
import Authorship.Command.IgnoreRule

/-
Which entries of a directory are passed over, by the rules of that directory and of those above
it. What a repository keeps out of itself says nothing about another repository inside it.
-/
namespace Authorship.Command

structure RuleLevel where
  path : List Char
  isAbove : Bool
  isRepository : Bool
  ownRules : IgnoreRules
  generalRules : IgnoreRules
  repositoryRules : IgnoreRules
  excludeRules : IgnoreRules

def ruleFiles : List String := [".codeoriginignore", ".ignore", ".gitignore"]

def repositoryEntries : List String := [".git", ".jj"]

def rulesOf (bytes : Option (List UInt8)) : IgnoreRules :=
  (bytes.map IgnoreRules.ofBytes).getD []

def linkedPlace? (bytes : List UInt8) : Option (List Char) := do
  let line ← (validLines bytes).head?
  let mark := "gitdir: ".toList
  if mark.isPrefixOf line then some (line.drop mark.length) else none

def commonFileOf (place : List Char) : String :=
  String.ofList (Path.join place "commondir".toList)

/-- The repository that a file in its place leads to. A path that begins with a dot is seen from
the place that the file names. -/
def linkedRepository? (d : Disk) (bytes : List UInt8) : Option (List Char) := do
  let place ← linkedPlace? bytes
  let common ← (validLines (← d.bytes? (commonFileOf place))).head?
  return if common.head? = some '.' then Path.join place common else common

def excludeFile : List String := ["info", "exclude"]

def excludeFileOf (repository : List Char) : String :=
  String.ofList (Path.join repository (String.intercalate "/" excludeFile).toList)

def excludeRulesOf (d : Disk) (directory : Entry) : IgnoreRules :=
  match directory.find? [".git"] with
  | some (.file bytes) =>
    rulesOf ((linkedRepository? d bytes).bind fun repository => d.bytes? (excludeFileOf repository))
  | some repository => rulesOf ((repository.find? excludeFile).bind (·.bytes?))
  | none => []

def RuleLevel.ofDirectory (d : Disk) (path : List Char) (isAbove : Bool) (directory : Entry) :
    RuleLevel :=
  let rules (name : String) := rulesOf ((directory.find? [name]).bind (·.bytes?))
  { path := Path.withoutDot path
    isAbove
    isRepository := repositoryEntries.any fun name => (directory.find? [name]).isSome
    ownRules := rules ".codeoriginignore"
    generalRules := rules ".ignore"
    repositoryRules := rules ".gitignore"
    excludeRules := excludeRulesOf d directory }

structure Origin where
  path : List Char
  absolute : List Char

def Origin.absolutePath (o : Origin) (path : List Char) : List Char :=
  Path.join o.absolute <|
    if Path.isCurrent o.path then path
    else Path.withoutStart ['/'] (Path.withoutStart (Path.withoutDot o.path) path)

/-- A level together with the path of the entry in question, as seen from there. -/
abbrev View := RuleLevel × List Char

def Origin.views (o : Origin) (levels : List RuleLevel) (path : List Char) : List View :=
  let path := Path.withoutDot path
  levels.map fun l => (l, Path.below l.path (if l.isAbove then o.absolutePath path else path))

def upToRepository : List View → List View
  | [] => []
  | view :: views => if view.1.isRepository then [view] else view :: upToRepository views

def rulingBy (rules : RuleLevel → IgnoreRules) (isDirectory : Bool) (views : List View) :
    Option Ruling :=
  views.findSome? fun (level, path) => (rules level).ruling? path isDirectory

/-- One kind of rules comes before the next at whatever level they stand. -/
def rulingOn (isDirectory : Bool) (views : List View) : Option Ruling :=
  rulingBy (·.ownRules) isDirectory views <|>
  rulingBy (·.generalRules) isDirectory views <|>
  rulingBy (·.repositoryRules) isDirectory (upToRepository views) <|>
  rulingBy (·.excludeRules) isDirectory (upToRepository views)

/-- A name that ends in a dot is not hidden. -/
def isHidden (name : String) : Bool :=
  name.toList.head? = some '.' && name.toList.getLast? != some '.'

/-- Hidden entries are passed over unless a rule keeps them. The nearest level comes first. -/
def isPassedOver (o : Origin) (levels : List RuleLevel) (path : List Char) (name : String)
    (isDirectory : Bool) : Bool :=
  match rulingOn isDirectory (o.views levels path) with
  | some ruling => ruling = .ignored
  | none => isHidden name

end Authorship.Command
