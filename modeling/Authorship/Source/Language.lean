import Authorship.Path

/- The language of a source file, told from its name. -/
namespace Authorship.Source

inductive Language where
  | c
  | cpp
  | unknown
deriving DecidableEq, Repr

namespace Language

def cExtensions : List String := ["c", "h"]

def cppExtensions : List String := ["cpp", "cc", "cxx", "c++", "hpp", "hh", "hxx"]

def lowerExtension? (filename : String) : Option String :=
  (Path.extension? filename).map fun e => String.ofList (Text.lowerAscii e.toList)

def ofFilename (filename : String) : Language :=
  match lowerExtension? filename with
  | none => .unknown
  | some extension =>
    if cExtensions.contains extension then .c
    else if cppExtensions.contains extension then .cpp
    else .unknown

def isSourceFile (filename : String) : Bool :=
  ((lowerExtension? filename).map (cExtensions ++ cppExtensions).contains).getD false

def key : Language → String
  | .c => "c"
  | .cpp => "cpp"
  | .unknown => "unknown"

def display : Language → String
  | .c => "C"
  | .cpp => "C++"
  | .unknown => "unknown"

end Language

end Authorship.Source
