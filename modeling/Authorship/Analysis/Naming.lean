import Authorship.Analysis.Structure

/- How descriptive and how consistent names are. -/
namespace Authorship.Analysis

open Lexicon Scalar

variable {α : Type} [Scalar α]

def longFunctionName : Nat := 6

def descriptiveLength : Nat := 4

def hasVerb (name : List Char) : Bool :=
  functionVerbs.any fun verb => verb.toList.isPrefixOf (Text.lowerAscii name)

/-- Looks like a word: long enough, not generic, and more than one letter in five a vowel. -/
def isMeaningful (name : List Char) : Bool :=
  3 ≤ name.length && !listed genericNames (Text.lowerAscii name) &&
    letterCount name < 5 * vowelCount name

def isAbbreviation (name : List Char) : Bool :=
  2 ≤ name.length && name.length ≤ 4 && !isGeneric name && vowelCount name = 0

def isDescriptive (name : List Char) : Bool :=
  !isGeneric name &&
    (descriptiveLength ≤ name.length || isCamelCase name || isSnakeCase name)

def namingMeasurements (s : Source.Prepared) : Measurements α :=
  let declared := (declarations s.masked).map (·.name)
  let functions := functionNames s.masked
  let names := (identifiers s.maskedLines).eraseDups
  [("descriptive_var_ratio", perCount (declared.countP isDescriptive) declared.length),
    ("generic_var_ratio", perCount (declared.countP isGeneric) declared.length),
    ("verb_function_ratio", perCount (functions.countP hasVerb) functions.length),
    ("descriptive_function_ratio",
      perCount (functions.countP (longFunctionName ≤ ·.length)) functions.length),
    ("meaningful_names_score", perCount (names.countP isMeaningful) names.length),
    ("naming_consistency_score", dominance (names.countP isCamelCase) (names.countP isSnakeCase)),
    ("abbreviation_ratio", perCount (declared.countP isAbbreviation) declared.length)]

end Authorship.Analysis
