import Authorship.Lexicon.Nesting
import Authorship.Scalar
import Authorship.Source.Prepared

/- Line counts, tokens and an approximate cyclomatic complexity. -/
namespace Authorship.Analysis

open Pattern Scalar

variable {α : Type} [Scalar α]

abbrev Measurements (α : Type) := List (String × α)

def quotedBy (quote : Char) : Pattern :=
  sequence [char quote, span (· != quote), char quote]

def isWordOrDot (c : Char) : Bool := Text.isWord c || c = '.'

def token : Pattern :=
  oneOf
    [name,
      sequence [satisfying Text.isDecimalDigit, span isWordOrDot],
      quotedBy '"', quotedBy '\'',
      literals (spellings
        ["==", "!=", "<=", ">=", "&&", "||", "++", "--", "->", "::", "<<", ">>"]),
      satisfying fun c => !Text.isBlank c && !Text.isWord c]

def decision : Pattern :=
  oneOf
    [Lexicon.wholeWord ["if", "for", "while", "case", "catch"],
      literals (spellings ["&&", "||", "?"])]

def tokenCount (s : Source.Prepared) : Nat := sumOf (s.codeLines.map (countMatches token))

def decisionCount (s : Source.Prepared) : Nat :=
  sumOf ((s.maskedLines.filter (!Lexicon.isPreprocessor ·)).map (countMatches decision))

/-- One more than the decisions per function. A file without functions counts as one. -/
def cyclomaticComplexity (s : Source.Prepared) : α :=
  if s.isEmpty then zero
  else one + count (decisionCount s) / count (max s.functions.length 1)

def basicMeasurements (s : Source.Prepared) : Measurements α :=
  let tokens := tokenCount s
  [("loc", count s.loc),
    ("total_lines", count s.totalLines),
    ("comment_lines", count s.commentLines),
    ("blank_lines", count s.blankLines),
    ("comment_ratio", perCount s.commentLines s.totalLines),
    ("blank_ratio", perCount s.blankLines s.totalLines),
    ("token_count", count tokens),
    ("tokens_per_loc", perCount tokens s.loc),
    ("cyclomatic_complexity", cyclomaticComplexity s)]

end Authorship.Analysis
