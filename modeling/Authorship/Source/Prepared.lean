import Authorship.Lexicon.Function
import Authorship.Source.Language
import Authorship.Source.Scan

/- A source file without its comments, as every measurement reads it. -/
namespace Authorship.Source

/-- Lines of code are those that are not blank once comments are gone; the masked ones are the same
with the contents of literals blanked. -/
structure Prepared where
  filename : String
  language : Language
  raw : List Char
  codeLines : List (List Char)
  maskedLines : List (List Char)
  lineComments : List (List Char)
  totalLines : Nat
  blankLines : Nat
  commentLines : Nat
  functions : List Lexicon.Definition
deriving Repr

/-- The lines of both views whose code is not blank, without the blanks that end them. -/
def keptLines (marks : List Mark) : List (List Char × List Char) :=
  let pairs := (Text.splitOn '\n' (codeText marks)).zip (Text.splitOn '\n' (maskedText marks))
  (pairs.filter fun (code, _) => !Text.isBlankLine code).map fun (code, masked) =>
    (Text.trimEnd code, Text.trimEnd masked)

def prepare (text filename : String) : Prepared :=
  let raw := text.toList
  let marks := scan .code (Text.withoutCarriageReturns raw)
  let kept := keptLines marks
  let rawLines := Text.lines raw
  let maskedLines := kept.map (·.2)
  { filename
    language := .ofFilename filename
    raw
    codeLines := kept.map (·.1)
    maskedLines
    lineComments := lineComments marks
    totalLines := rawLines.length
    blankLines := rawLines.countP Text.isBlankLine
    commentLines := min ((commentFlags false marks).count true) rawLines.length
    functions := Lexicon.functionDefinitions (Text.joinWith '\n' maskedLines) }

namespace Prepared

def loc (s : Prepared) : Nat := s.codeLines.length

def isEmpty (s : Prepared) : Bool := s.codeLines.isEmpty

def masked (s : Prepared) : List Char := Text.joinWith '\n' s.maskedLines

def rawLines (s : Prepared) : List (List Char) := Text.lines s.raw

end Prepared

end Authorship.Source
