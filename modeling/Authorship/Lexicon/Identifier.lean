import Authorship.Lexicon.Line
import Authorship.Lexicon.Words
import Authorship.Pattern

/- The words of masked lines. -/
namespace Authorship.Lexicon

open Pattern

def identifier : Pattern := sequence [boundary, name, boundary]

def identifiers (maskedLines : List (List Char)) : List (List Char) :=
  let found := (maskedLines.filter (!isInclude ·)).flatMap fun line =>
    (allMatches identifier line).map (·.text)
  found.filter (!isReserved ·)

def wholeWord (words : List String) : Pattern :=
  sequence [boundary, literals (spellings words), boundary]

end Authorship.Lexicon
