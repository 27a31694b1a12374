import Authorship.Analysis.Basic
import Authorship.Feature.Bound

/- Volume, nesting-weighted control flow and the maintainability index. -/
namespace Authorship.Analysis

open Pattern Scalar

variable {α : Type}

def isOperatorSign (c : Char) : Bool :=
  ['+', '-', '*', '/', '%', '=', '<', '>', '!', '&', '|', '^', '~'].contains c

def operatorSigns : Pattern := span1 isOperatorSign

def digits1 : Pattern := span1 Text.isDecimalDigit

def operand : Pattern :=
  oneOf
    [Lexicon.identifier,
      sequence [boundary, digits1, optional (sequence [char '.', digits1]), boundary]]

structure Volume where
  distinctOperators : Nat
  distinctOperands : Nat
  totalOperators : Nat
  totalOperands : Nat
deriving DecidableEq, Repr

def texts (p : Pattern) (lines : List (List Char)) : List (List Char) :=
  lines.flatMap fun line => (allMatches p line).map (·.text)

def Volume.measure (maskedLines : List (List Char)) : Volume :=
  let lines := maskedLines.filter (!Lexicon.isInclude ·)
  let operators := texts operatorSigns lines
  let operands := texts operand lines
  ⟨operators.eraseDups.length, operands.eraseDups.length, operators.length, operands.length⟩

/-- The number of occurrences times the bits that tell them apart, zero if either kind is
missing. -/
def Volume.value [Analytic α] (v : Volume) : α :=
  if v.distinctOperators = 0 || v.distinctOperands = 0 then zero
  else
    count (v.totalOperators + v.totalOperands) *
      Analytic.log2 (count (v.distinctOperators + v.distinctOperands))

def cognitiveComplexity (maskedLines : List (List Char)) : Nat :=
  sumOf (Lexicon.nestingDepths maskedLines)

def maintainabilityIndex [Analytic α] (volume : α) (loc : Nat) : α :=
  if volume ≤ zero || loc = 0 then zero
  else larger (171.0 - 5.2 * Analytic.ln volume - 0.23 - 16.2 * Analytic.ln (count loc)) zero

def codeToCommentRatio [Scalar α] (code comments : Nat) : α :=
  if code = 0 then zero
  else if comments = 0 then count Feature.noCommentValue
  else count code / count comments

def complexityMeasurements [Analytic α] (s : Source.Prepared) : Measurements α :=
  let volume : α := (Volume.measure s.maskedLines).value
  let cognitive := cognitiveComplexity s.maskedLines
  [("halstead_complexity", volume),
    ("halstead_per_loc", per volume (count s.loc)),
    ("cognitive_complexity", count cognitive),
    ("cognitive_per_loc", perCount cognitive s.loc),
    ("maintainability_index", maintainabilityIndex volume s.loc),
    ("code_to_comment_ratio", codeToCommentRatio s.loc s.commentLines)]

end Authorship.Analysis
