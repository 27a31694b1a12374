import Authorship.Text.Lines

/- File paths, taken apart at their slashes. -/
namespace Authorship.Path

inductive Part where
  | root
  | current
  | parent
  | named (name : String)
deriving DecidableEq, Repr

def pieceToPart? : List Char → Option Part
  | [] => none
  | ['.'] => none
  | ['.', '.'] => some .parent
  | piece => some (.named (String.ofList piece))

/-- Repeated slashes and dots count for nothing, except a dot at the very beginning. -/
def parts (path : String) : List Part :=
  let pieces := Text.splitOn '/' path.toList
  let head := match pieces with
    | [] :: _ :: _ => [Part.root]
    | ['.'] :: _ => [Part.current]
    | _ => []
  head ++ pieces.filterMap pieceToPart?

def fileName? (path : String) : Option String :=
  match (parts path).getLast? with
  | some (.named name) => some name
  | _ => none

/-- What follows the last dot of the file name, unless that dot is its first character. -/
def extension? (path : String) : Option String := do
  let name ← fileName? path
  let reversed := name.toList.reverse
  let after := reversed.takeWhile (· != '.')
  match reversed.drop after.length with
  | _ :: _ :: _ => some (String.ofList after.reverse)
  | _ => none

def join (directory path : List Char) : List Char :=
  if path.head? = some '/' || directory.isEmpty then path
  else if directory.getLast? = some '/' then directory ++ path
  else directory ++ '/' :: path

def isCurrent (path : List Char) : Bool := parts (String.ofList path) = [.current]

def withoutStart (start path : List Char) : List Char :=
  if start.isPrefixOf path then path.drop start.length else path

def withoutDot (path : List Char) : List Char := withoutStart ['.', '/'] path

/-- A path as seen from a directory, by what is written alone: of the dots at its beginning only
the first is passed over, and a path that does not begin as the directory does stays whole. -/
def below (directory path : List Char) : List Char :=
  let path := withoutDot path
  if isCurrent directory || !path.contains '/' || !directory.isPrefixOf path then path
  else withoutStart ['/'] (path.drop directory.length)

end Authorship.Path
