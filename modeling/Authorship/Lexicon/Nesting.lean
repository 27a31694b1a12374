import Authorship.Lexicon.Identifier

/- How deep control flow nests: a control word opens a level and a closing brace ends one. -/
namespace Authorship.Lexicon

open Pattern

inductive NestingEvent where
  | control
  | close
deriving DecidableEq, Repr

def controlOrClose : Pattern := oneOf [wholeWord controlWords, char '}']

def nestingEvents (maskedLines : List (List Char)) : List NestingEvent :=
  maskedLines.flatMap fun line => (allMatches controlOrClose line).map fun found =>
    if found.text = ['}'] then .close else .control

/-- The depth after each control word. It never falls below zero. -/
def depthsFrom (depth : Nat) : List NestingEvent → List Nat
  | [] => []
  | .control :: events => (depth + 1) :: depthsFrom (depth + 1) events
  | .close :: events => depthsFrom (depth - 1) events

def nestingDepths (maskedLines : List (List Char)) : List Nat :=
  depthsFrom 0 (nestingEvents maskedLines)

end Authorship.Lexicon
