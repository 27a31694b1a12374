import Authorship.Lexicon.Words
import Authorship.Pattern

/- Variables declared with a built-in type. -/
namespace Authorship.Lexicon

open Pattern

structure Declaration where
  name : List Char
  inForHeader : Bool
deriving DecidableEq, Repr

/-- A declarator is followed over at most this many bytes of dimensions, and as many of
initializer, so that an unclosed bracket does not swallow the rest of the file. -/
def declaratorSpan : Nat := 4096

def qualifier : Pattern := sequence [literals (spellings typeQualifiers), blanks1]

def declaredType : Pattern :=
  sequence [boundary, many qualifier, literals (spellings variableTypes), boundary]

def followsForParenthesis (behind : List Char) : Bool :=
  match behind.dropWhile Text.isBlank with
  | '(' :: rest =>
    match rest.dropWhile Text.isBlank with
    | 'r' :: 'o' :: 'f' :: before => !before.head?.any fun c => Text.isAlphanumeric c || c = '_'
    | _ => false
  | _ => false

def isOpener (c : Char) : Bool := c = '(' || c = '[' || c = '{'

def isCloser (c : Char) : Bool := c = ')' || c = ']' || c = '}'

/-- What follows the bracketed group that the text begins with, or what is left when the bytes
allowed are used up. A character too wide for them is not begun. -/
def skipGroup (bytes depth : Nat) : List Char → List Char
  | [] => []
  | c :: cs =>
    if bytes < c.utf8Size then c :: cs
    else if isOpener c then skipGroup (bytes - c.utf8Size) (depth + 1) cs
    else if isCloser c then
      if depth ≤ 1 then cs else skipGroup (bytes - c.utf8Size) (depth - 1) cs
    else skipGroup (bytes - c.utf8Size) depth cs

/-- What follows an initializer: it ends before a comma, a semicolon or a closing bracket that
stands outside its own brackets. -/
def skipInitializer (bytes depth : Nat) : List Char → List Char
  | [] => []
  | c :: cs =>
    if bytes < c.utf8Size then c :: cs
    else if isOpener c then skipInitializer (bytes - c.utf8Size) (depth + 1) cs
    else if isCloser c then
      if depth = 0 then c :: cs else skipInitializer (bytes - c.utf8Size) (depth - 1) cs
    else if depth = 0 && (c = ',' || c = ';') then c :: cs
    else skipInitializer (bytes - c.utf8Size) depth cs

/-- Each turn takes a group, so the characters left bound the number of turns. -/
def skipDimensions : Nat → List Char → List Char
  | 0, cs => cs
  | turns + 1, cs =>
    match cs with
    | '[' :: _ =>
      skipDimensions turns ((skipGroup declaratorSpan 0 cs).dropWhile Text.isAsciiBlank)
    | _ => cs

def readName (cs : List Char) : Option (List Char × List Char) :=
  if cs.head?.any Text.isNameStart then
    some (cs.takeWhile Text.isAsciiWord, cs.dropWhile Text.isAsciiWord)
  else none

def isDeclaratorSign (c : Char) : Bool := Text.isAsciiBlank c || c = '*' || c = '&'

/-- The names declared after a type. The first name is none if a parenthesis follows it: that is
the header of a function. Each turn takes a name. -/
def declaratorNames (turns : Nat) (isFirst : Bool) (cs : List Char) : List (List Char) :=
  match turns with
  | 0 => []
  | turns + 1 =>
    match readName (cs.dropWhile isDeclaratorSign) with
    | none => []
    | some (name, afterName) =>
      if isReserved name then []
      else
        let rest := afterName.dropWhile Text.isAsciiBlank
        match skipDimensions rest.length rest with
        | '(' :: cs => if isFirst then [] else name :: continued turns ('(' :: cs)
        | '=' :: cs => name :: continued turns (skipInitializer declaratorSpan 0 cs)
        | cs => name :: continued turns cs
where
  continued (turns : Nat) : List Char → List (List Char)
    | ',' :: cs => declaratorNames turns false cs
    | _ => []

def declarations (masked : List Char) : List Declaration :=
  (allMatches declaredType masked).flatMap fun found =>
    let inForHeader := followsForParenthesis found.before
    (declaratorNames found.after.length true found.after).map (⟨·, inForHeader⟩)

end Authorship.Lexicon
