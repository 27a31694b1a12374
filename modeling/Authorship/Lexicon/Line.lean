import Authorship.Text.Lines

/- What the beginning of a line says about it. -/
namespace Authorship.Lexicon

def isPreprocessor (line : List Char) : Bool := (Text.trimStart line).head? = some '#'

def isInclude (line : List Char) : Bool :=
  match Text.trimStart line with
  | '#' :: rest => "include".toList.isPrefixOf (Text.trimStart rest)
  | _ => false

/-- The width of the blanks that a line begins with, a tab counting four columns. -/
def indentColumns (line : List Char) : Nat :=
  sumOf ((line.takeWhile Text.isBlank).map fun c => if c = '\t' then 4 else 1)

end Authorship.Lexicon
