import Authorship.Analysis.Structure

/-
Irregularities of formatting, as they occur in code written by hand. Spacing is judged per line
that is not blank, indentation per indented line, naming per identifier and formatting per line of
code. The weighted sum of the four is the overall score.
-/
namespace Authorship.Analysis

open Pattern Scalar

variable {α : Type} [Scalar α]

structure StyleWeights (α : Type) where
  spacing : α
  indentation : α
  naming : α
  formatting : α
deriving DecidableEq, Repr

def StyleWeights.default : StyleWeights α := ⟨0.30, 0.30, 0.25, 0.15⟩

def longLine : Nat := 120

def greatestStep : Nat := 8

structure SpacingIssues where
  total : Nat
  trailing : Nat
  nonblankLines : Nat
deriving DecidableEq, Repr

structure IndentationIssues where
  total : Nat
  mixed : Nat
  indentedLines : Nat
deriving DecidableEq, Repr

structure FormattingIssues where
  total : Nat
  longLines : Nat
deriving DecidableEq, Repr

structure StyleIssues where
  spacing : SpacingIssues
  indentation : IndentationIssues
  naming : Nat
  uniqueIdentifiers : Nat
  formatting : FormattingIssues
  codeLines : Nat
deriving DecidableEq, Repr

def operandEnd : Pattern := satisfying fun c => Text.isWord c || c = ')' || c = ']'

def judgedSigns : Pattern :=
  oneOf [literals (spellings ["+=", "-=", "*=", "/=", "==", "!=", "<=", ">=", "&&", "||"]),
    satisfying ['-', '+', '*', '/', '%', '=', '<', '>', '&', '|'].contains]

def operandStart : Pattern := satisfying fun c => Text.isWord c || c = '('

def judgedOperation : Pattern := sequence [operandEnd, blanks, judgedSigns, blanks, operandStart]

/-- One issue for a side without a blank, and one for a side with more than one byte of them. -/
def sideIssues (gap : List Char) : Nat := if Text.utf8Length gap = 1 then 0 else 1

def operatorIssues (line : List Char) : Nat :=
  let spacings := (allMatches judgedOperation line).filterMap fun found =>
    spacingWithin operandEnd judgedSigns operandStart found.start
  sumOf (spacings.map fun s => sideIssues s.before + sideIssues s.after)

def isVisible (c : Char) : Bool := !Text.isBlank c

def isSpaceOrTab (c : Char) : Bool := c = ' ' || c = '\t'

def spaces1 : Pattern := span1 isSpaceOrTab

/-- A comma without a blank after it, a blank before a comma or a semicolon, a semicolon without
one after it, padded parentheses, and a keyword that touches its parenthesis. -/
def spacingPatterns : List Pattern := [
  sequence [char ',', satisfying isVisible],
  sequence [satisfying isVisible, spaces1, satisfying fun c => c = ',' || c = ';'],
  sequence [char ';', satisfying fun c => isVisible c && c != ';' && c != ')'],
  oneOf [sequence [char '(', spaces1, satisfying isVisible],
    sequence [satisfying isVisible, spaces1, char ')']],
  sequence [boundary, literals (spellings ["if", "for", "while", "switch"]), char '(']]

def lineSpacingIssues (maskedLine : List Char) : Nat :=
  let code := Text.trimStart maskedLine
  operatorIssues code + sumOf (spacingPatterns.map (countMatches · code))

def endsWithBlank (line : List Char) : Bool := line.getLast?.any isSpaceOrTab

/-- A blank line with anything in it is an issue, and so are blanks at the end of another line. -/
def spacingIssues (s : Source.Prepared) : SpacingIssues :=
  let (blankLines, lines) := s.rawLines.partition Text.isBlankLine
  let trailing := lines.countP endsWithBlank
  let judged := s.maskedLines.filter (!Lexicon.isPreprocessor ·)
  { total := blankLines.countP (!·.isEmpty) + trailing + sumOf (judged.map lineSpacingIssues)
    trailing
    nonblankLines := lines.length }

def lead (line : List Char) : List Char := line.takeWhile isSpaceOrTab

def isMixed (lead : List Char) : Bool := lead.contains ' ' && lead.contains '\t'

def isOdd (lead : List Char) : Bool := !lead.contains '\t' && lead.length % 2 != 0

def closeDeeper (column : Nat) (levels : List Nat) : List Nat := levels.dropWhile (column < ·)

/-- Abrupt steps inwards, and steps outwards to a column that is no open level. Such a column
becomes a level of its own. -/
def stepIssues (previous : Nat) (levels : List Nat) : List Nat → Nat
  | [] => 0
  | column :: columns =>
    let abrupt := if previous + greatestStep < column then 1 else 0
    if previous < column then abrupt + stepIssues column (column :: levels) columns
    else if column < previous then
      let kept := closeDeeper column levels
      if kept.head? = some column then stepIssues column kept columns
      else 1 + stepIssues column (column :: kept) columns
    else stepIssues column levels columns

def indentationIssues (rawLines : List (List Char)) : IndentationIssues :=
  let lines := rawLines.filter (!Text.isBlankLine ·)
  let leads := (lines.map lead).filter (!·.isEmpty)
  let mixed := leads.countP isMixed
  let tabLed := leads.countP (·.head? = some '\t')
  { total := mixed + leads.countP isOdd + stepIssues 0 [0] (lines.map Lexicon.indentColumns)
      + min tabLed (leads.length - tabLed)
    mixed
    indentedLines := leads.length }

def poorPrefixes : List String :=
  ["temp", "tmp", "foo", "bar", "baz", "dummy", "stuff", "thing", "var"]

def poorName : Pattern :=
  oneOf
    [sequence [span1 Char.isLower, digits, atEnd],
      sequence [oneOf (poorPrefixes.map anyCase), span Text.isWord, atEnd],
      sequence [satisfying Char.isLower, optional (satisfying Char.isLower), atEnd]]
where
  digits : Pattern := span1 Text.isDecimalDigit

def isHexDigit (c : Char) : Bool := c.isDigit || ('a' ≤ c && c ≤ 'f') || ('A' ≤ c && c ≤ 'F')

/-- A number from twenty upwards, or one of three hexadecimal digits or more. -/
def magicNumber : Pattern :=
  oneOf
    [sequence [boundary,
        oneOf
          [sequence [satisfying fun c => '1' ≤ c && c ≤ '9', digit, digit, span Text.isDecimalDigit],
            sequence [satisfying fun c => '2' ≤ c && c ≤ '9', digit]],
        boundary],
      sequence [boundary, char '0', satisfying fun c => c = 'x' || c = 'X',
        hex, hex, hex, span isHexDigit, boundary]]
where
  digit : Pattern := satisfying Text.isDecimalDigit
  hex : Pattern := satisfying isHexDigit

/-- Identifiers in the minority style, shapes of declared names beyond two, poor names wherever
they occur, and magic numbers. -/
def namingIssues (s : Source.Prepared) : Nat :=
  let occurrences := Lexicon.identifiers s.maskedLines
  let names := occurrences.eraseDups
  let shapes := ((Lexicon.declarations s.masked).map fun d => Lexicon.shape d.name).eraseDups
  let judged := s.maskedLines.filter (!Lexicon.isPreprocessor ·)
  min (names.countP Lexicon.isCamelCase) (names.countP Lexicon.isSnakeCase)
    + (shapes.length - 2)
    + occurrences.countP (opens poorName)
    + sumOf (judged.map (countMatches magicNumber))

/-- Whether a line comment stands off its slashes. A comment that begins with another slash, or
says nothing, is not judged. -/
def commentStandsOff? (comment : List Char) : Option Bool :=
  if Text.isBlankLine comment || comment.head? = some '/' then none
  else some (comment.head?.any Text.isBlank)

/-- Braces in the minority placement, long lines, and comments in the minority spacing. -/
def formattingIssues (s : Source.Prepared) : FormattingIssues :=
  let (ownLine, sameLine) := bracePlacements s.maskedLines
  let longLines := s.rawLines.countP (longLine < ·.length)
  let comments := s.lineComments.filterMap commentStandsOff?
  { total := min ownLine sameLine + longLines + min (comments.count false) (comments.count true)
    longLines }

def styleIssues (s : Source.Prepared) : StyleIssues where
  spacing := spacingIssues s
  indentation := indentationIssues s.rawLines
  naming := namingIssues s
  uniqueIdentifiers := (Lexicon.identifiers s.maskedLines).eraseDups.length
  formatting := formattingIssues s
  codeLines := s.loc

namespace StyleIssues

def spacingRatio (i : StyleIssues) : α := perCount i.spacing.total i.spacing.nonblankLines

def indentationRatio (i : StyleIssues) : α :=
  perCount i.indentation.total i.indentation.indentedLines

def namingRatio (i : StyleIssues) : α := perCount i.naming i.uniqueIdentifiers

def formattingRatio (i : StyleIssues) : α := perCount i.formatting.total i.codeLines

def overall (w : StyleWeights α) (i : StyleIssues) : α :=
  clamp zero one (w.spacing * i.spacingRatio + w.indentation * i.indentationRatio
    + w.naming * i.namingRatio + w.formatting * i.formattingRatio)

end StyleIssues

def styleMeasurements (w : StyleWeights α) (s : Source.Prepared) : Measurements α :=
  let i := styleIssues s
  [("spacing_issues_ratio", i.spacingRatio),
    ("indentation_issues_ratio", i.indentationRatio),
    ("naming_inconsistency_ratio", i.namingRatio),
    ("formatting_issues_ratio", i.formattingRatio),
    ("trailing_whitespace_ratio", perCount i.spacing.trailing i.spacing.nonblankLines),
    ("mixed_indentation_ratio", perCount i.indentation.mixed i.indentation.indentedLines),
    ("long_line_ratio", perCount i.formatting.longLines i.spacing.nonblankLines),
    ("overall_human_score", i.overall w)]

end Authorship.Analysis
