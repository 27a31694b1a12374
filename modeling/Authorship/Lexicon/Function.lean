import Authorship.Lexicon.Brace
import Authorship.Lexicon.Declaration
import Authorship.Lexicon.Identifier

/- Functions defined or declared with a built-in or `struct` return type. -/
namespace Authorship.Lexicon

open Pattern

def templateArguments : Pattern :=
  sequence [char '<', run (fun c => !(c = ';' || c = '{' || c = '}' || c = '(' || c = ')')),
    char '>']

def returnType : Pattern :=
  oneOf
    [literals (spellings returnTypes),
      sequence [literal "std::", anyWord, optional templateArguments],
      sequence [literal "struct", blanks1, anyWord]]
where
  anyWord : Pattern := run1 Text.isWord

def pointers : Pattern :=
  sequence [blanks, span (fun c => c = '*' || c = '&'), blanks]

def functionName : Pattern :=
  sequence [name, optional (sequence [literal "::", optional (char '~'), name])]

def parameters : Pattern :=
  sequence [blanks, char '(', lazyRun (fun c => !(c = ';' || c = '{' || c = '}')), char ')',
    blanks]

def headerTail : Pattern :=
  sequence [parameters, optional (sequence [literal "const", blanks]),
    optional (sequence [literal "noexcept", blanks]), char '{']

structure Header where
  name : List Char
  first : Nat
  brace : Nat
deriving DecidableEq, Repr

def typeBeforeHeader : Pattern := sequence [boundary, many qualifier, returnType, pointers]

def header : Pattern := sequence [typeBeforeHeader, functionName, headerTail]

/-- The name in a match: the first split of it into type, name and tail. -/
def nameWithin (before named tail : Pattern) (place : Cursor) : List Char :=
  let splits := (before place).flatMap fun start =>
    ((named start).filter fun stop => !(tail stop).isEmpty).map start.textTo
  splits.head?.getD []

def shortName (name : List Char) : List Char :=
  ((name.reverse.takeWhile (· != ':')).reverse)

def isFunctionName (name : List Char) : Bool :=
  !isReserved (shortName name) || shortName name = "main".toList

def headers (masked : List Char) : List Header :=
  ((allMatches header masked).map fun found =>
    { name := nameWithin typeBeforeHeader functionName headerTail found.start
      first := found.before.length
      brace := found.before.length + found.text.length - 1 }).filter fun h => isFunctionName h.name

structure Definition where
  name : List Char
  first : Nat
  last : Nat
  length : Nat
deriving DecidableEq, Repr

def slice (text : List Char) (first last : Nat) : List Char :=
  (text.drop first).take (last - first)

namespace Definition

def body (d : Definition) (masked : List Char) : List Char := slice masked d.first d.last

def byteSpan (d : Definition) (masked : List Char) : Nat × Nat :=
  (Text.utf8Length (masked.take d.first), Text.utf8Length (masked.take d.last))

def isRecursive (d : Definition) (masked : List Char) : Bool :=
  (allMatches identifier (d.body masked)).any (·.text = shortName d.name)

end Definition

/-- A body ends at its matching brace, but never goes past the next header: if the brace is
missing or lies beyond it, the body ends where that header begins. -/
def definitionOf (masked : List Char) (pairs : List (Nat × Nat)) (limit : Nat) (h : Header) :
    Definition :=
  let close := (pairs.lookup h.brace).filter (· ≤ limit)
  let text := match close with
    | some close => slice masked h.brace close
    | none => Text.trimEnd (slice masked h.brace limit)
  { name := h.name
    first := h.brace + 1
    last := close.getD limit
    length := text.count '\n' + 1 }

def definitionsFrom (masked : List Char) (pairs : List (Nat × Nat)) : List Header → List Definition
  | [] => []
  | h :: hs =>
    let limit := match hs with
      | [] => masked.length
      | next :: _ => next.first
    definitionOf masked pairs limit h :: definitionsFrom masked pairs hs

def functionDefinitions (masked : List Char) : List Definition :=
  definitionsFrom masked (bracePairs '{' '}' masked) (headers masked)

def beforeCalledName : Pattern := sequence [boundary, returnType, pointers]

def calledTail : Pattern := sequence [blanks, char '(']

def namedHeader : Pattern := sequence [beforeCalledName, name, calledTail]

def functionNames (masked : List Char) : List (List Char) :=
  let found := (allMatches namedHeader masked).map fun found =>
    nameWithin beforeCalledName name calledTail found.start
  (found.filter (!isReserved ·)).eraseDups

end Authorship.Lexicon
