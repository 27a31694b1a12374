import Authorship.Analysis.Basic

/-
How dense the textbook idioms are: template code, explicit error handling and validation. Each
family is a list of patterns, and every pattern is counted on its own.
-/
namespace Authorship.Analysis

open Pattern Scalar

variable {α : Type} [Scalar α]

def spaced (ps : List Pattern) : Pattern := sequence (ps.intersperse blanks)

def fromWord (text : String) : Pattern := sequence [boundary, literal text]

def includeOf (header : String) : Pattern :=
  spaced [char '#', literal "include", literal header]

def comparedWith (constant : String) : Pattern :=
  spaced [fromWord "if", char '(', word, literal "==", literal constant, char ')']

def templatePatterns : List Pattern := [
  includeOf "<stdio.h>", includeOf "<stdlib.h>", includeOf "<string.h>", includeOf "<iostream>",
  sequence [fromWord "int", blanks1,
    spaced [literal "main", char '(', optional (literal "void"), char ')']],
  sequence [fromWord "return", blanks1, spaced [char '0', char ';']],
  sequence [fromWord "using", blanks1, literal "namespace", blanks1,
    spaced [literal "std", char ';']],
  comparedWith "NULL", comparedWith "nullptr",
  sequence [spaced [fromWord "malloc", char '('], run (· != ';'),
    spaced [literal "sizeof", char '(']],
  spaced [fromWord "free", char '(', word, char ')', char ';']]

def equality : Pattern := sequence [oneOf [char '!', char '='], char '=']

def errorPatterns : List Pattern := [
  sequence [spaced [equality, literal "NULL"], boundary],
  spaced [fromWord "NULL", equality],
  sequence [spaced [equality, literal "nullptr"], boundary],
  spaced [fromWord "if", char '(', char '!', word],
  Lexicon.wholeWord ["errno"],
  spaced [fromWord "perror", char '('],
  spaced [fromWord "fprintf", char '(', literal "stderr"],
  Lexicon.wholeWord ["std::cerr"],
  spaced [fromWord "exit", char '(', literals (spellings ["1", "EXIT_FAILURE"]), char ')'],
  sequence [fromWord "return", blanks1, spaced [literal "-1", char ';']],
  spaced [fromWord "try", char '{'],
  spaced [fromWord "catch", char '('],
  Lexicon.wholeWord ["throw"]]

/-- In any case of letters. -/
def defensivePatterns : List Pattern := [
  sequence [boundary, anyCase "assert", span Text.isWord, blanks, char '('],
  sequence [boundary, run Text.isWord,
    oneOf (["check", "validate", "verify", "bounds"].map anyCase), span Text.isWord, boundary]]

def formalComment : Pattern :=
  let nextWord := sequence [blanks1, span1 (!Text.isBlank ·)]
  sequence [blanks, satisfying Char.isUpper, span1 Char.isLower, nextWord, nextWord]

def countIdioms (patterns : List Pattern) (lines : List (List Char)) : Nat :=
  sumOf (lines.map fun line => sumOf (patterns.map (countMatches · line)))

def isBoilerplate (line : List Char) : Bool :=
  let t := Text.trim line
  Lexicon.isInclude t || "using namespace".toList.isPrefixOf t ||
    [['{'], ['}'], ['}', ';'], "return 0;".toList].contains t

/-- Files shorter than this with several functions count as over-engineered. -/
def shortFile : Nat := 50

def overEngineering (loc functions : Nat) : α :=
  if 0 < loc && loc < shortFile && 1 < functions then count functions / count loc else zero

def idiomMeasurements (s : Source.Prepared) : Measurements α :=
  [("template_usage_score", perCount (countIdioms templatePatterns s.maskedLines) s.loc),
    ("boilerplate_ratio", perCount (s.codeLines.countP isBoilerplate) s.loc),
    ("error_handling_score", perCount (countIdioms errorPatterns s.maskedLines) s.loc),
    ("defensive_programming_score",
      perCount (countIdioms defensivePatterns s.maskedLines) s.loc),
    ("over_engineering_score", overEngineering s.loc s.functions.length),
    ("formal_comment_ratio",
      perCount (s.lineComments.countP (opens formalComment)) s.lineComments.length)]

end Authorship.Analysis
