import Authorship.Pattern
import Authorship.Lexicon.Words
import Authorship.Scalar

/- What the spelling of a name says about it. -/
namespace Authorship.Lexicon

open Pattern

def isLowerOrDigit (c : Char) : Bool := c.isLower || c.isDigit

def camelCase : Pattern :=
  sequence [satisfying Char.isLower, span isLowerOrDigit, satisfying Char.isUpper,
    span Char.isAlphanum]

def isCamelCase (name : List Char) : Bool := covers camelCase name

def snakePart : Pattern := sequence [char '_', span1 isLowerOrDigit]

def snakeCase : Pattern :=
  sequence [satisfying Char.isLower, span isLowerOrDigit, snakePart, many snakePart]

def isSnakeCase (name : List Char) : Bool := covers snakeCase name

def hungarianTags : List String :=
  ["str", "sz", "psz", "lp", "dw", "ch", "pp", "n", "i", "u", "b", "f", "d", "c", "p", "w", "h"]

/-- A type tag before a capital letter, or the tag of a member, a global or a static. -/
def hungarian : Pattern :=
  sequence
    [oneOf
      [sequence [literals (spellings hungarianTags), satisfying Char.isUpper],
        sequence [satisfying ['m', 'g', 's'].contains, char '_']],
      span Text.isWord]

def isHungarian (name : List Char) : Bool := covers hungarian name

def isGeneric (name : List Char) : Bool :=
  listed genericNames (Text.lowerAscii name) || name.length ≤ 2

def isVowel (c : Char) : Bool := ['a', 'e', 'i', 'o', 'u'].contains c.toLower

def vowelCount (name : List Char) : Nat := name.countP isVowel

def letterCount (name : List Char) : Nat := name.countP Char.isAlpha

def vowelFraction {α : Type} [Scalar α] (name : List Char) : α :=
  if letterCount name = 0 then Scalar.zero
  else Scalar.count (vowelCount name) / Scalar.count (letterCount name)

/-- The first that applies, in this order. -/
inductive Shape where
  | camel
  | snake
  | lower
  | upper
  | pascal
  | other
deriving DecidableEq, Repr

def shape (name : List Char) : Shape :=
  if isCamelCase name then .camel
  else if isSnakeCase name then .snake
  else if name.all isLowerOrDigit then .lower
  else if name.all (fun c => c.isUpper || c.isDigit || c = '_') then .upper
  else if name.head?.any Char.isUpper then .pascal
  else .other

end Authorship.Lexicon
