import Authorship.Command.Ignore
import Authorship.Sorting
import Authorship.Source.Language

/- The source files of a directory, at any depth. -/
namespace Authorship.Command

structure FoundFile where
  names : List String
  bytes : List UInt8

def FoundFile.path (f : FoundFile) : String := String.intercalate "/" f.names

structure Walk where
  disk : Disk
  origin : Origin

structure Stage where
  path : List Char
  names : List String
  levels : List RuleLevel

namespace Walk

def level (w : Walk) (path : List Char) (directory : Entry) : RuleLevel :=
  .ofDirectory w.disk path false directory

mutual

def entry (w : Walk) (s : Stage) (name : String) : Entry → List FoundFile
  | .file bytes =>
    let path := Path.join s.path name.toList
    if !isPassedOver w.origin s.levels path name false && Source.Language.isSourceFile name then
      [⟨s.names ++ [name], bytes⟩]
    else []
  | .directory children =>
    let path := Path.join s.path name.toList
    if isPassedOver w.origin s.levels path name true then []
    else
      let own := w.level path (.directory children)
      w.children ⟨path, s.names ++ [name], own :: s.levels⟩ children

def children (w : Walk) (s : Stage) : List (String × Entry) → List FoundFile
  | [] => []
  | (name, child) :: rest => w.entry s name child ++ w.children s rest

end

end Walk

def levelsAbove (d : Disk) (place : List String) : List RuleLevel :=
  ((List.range place.length).map fun n =>
    let names := place.take n
    .ofDirectory d (d.absoluteName names).toList true ((d.find? names).getD .empty)).reverse

/-- Sorted by the components of their paths. The rules do not apply to the directory itself. -/
def walk (d : Disk) (path : String) (place : List String) : List FoundFile :=
  let directory := (d.find? place).getD .empty
  let w : Walk := ⟨d, path.toList, (d.absoluteName place).toList⟩
  let levels := w.level path.toList directory :: levelsAbove d place
  let found := w.children ⟨path.toList, [], levels⟩ directory.children
  sortBy (fun a b => decide (a.names < b.names)) found

end Authorship.Command
