import Authorship.Text.Character

/-
Patterns. A pattern maps a place in a text to the places where a match from there may end, in order
of preference, so the first of them is the match. Alternatives are tried from the left and
repetitions prefer the longer run.
-/
namespace Authorship

/-- A place in a text while a match goes on: the characters before the match, those that it has
taken so far, both nearest first, and those after the place. -/
structure Cursor where
  before : List Char
  taken : List Char
  ahead : List Char
deriving DecidableEq, Repr

abbrev Pattern := Cursor → List Cursor

def Cursor.textTo (a b : Cursor) : List Char :=
  (b.taken.take (b.taken.length - a.taken.length)).reverse

namespace Pattern

def nothing : Pattern := fun place => [place]

def satisfying (p : Char → Bool) : Pattern
  | ⟨before, taken, c :: ahead⟩ => if p c then [⟨before, c :: taken, ahead⟩] else []
  | ⟨_, _, []⟩ => []

def char (c : Char) : Pattern := satisfying (· == c)

def fromEach (p : Pattern) : List Cursor → List Cursor
  | [] => []
  | [place] => p place
  | places => places.flatMap p

theorem from_each_eq_flat_map (p : Pattern) (places : List Cursor) :
    fromEach p places = places.flatMap p := by
  unfold fromEach
  split <;> simp

def sequence : List Pattern → Pattern
  | [] => nothing
  | [p] => p
  | p :: ps => fun place => fromEach (sequence ps) (p place)

def oneOf : List Pattern → Pattern
  | [] => fun _ => []
  | [p] => p
  | p :: ps => fun place => p place ++ oneOf ps place

def optional (p : Pattern) : Pattern := oneOf [p, nothing]

def expect (before taken : List Char) : List Char → List Char → Option Cursor
  | [], ahead => some ⟨before, taken, ahead⟩
  | _ :: _, [] => none
  | c :: cs, d :: ahead => if c = d then expect before (d :: taken) cs ahead else none

def spellings (texts : List String) : List (List Char) := texts.map (·.toList)

def literals : List (List Char) → Pattern
  | [], _ => []
  | cs :: others, place =>
    match expect place.before place.taken cs place.ahead with
    | some next => next :: literals others place
    | none => literals others place

def literal (text : String) : Pattern := literals [text.toList]

def anyCase (text : String) : Pattern :=
  sequence (text.toList.map fun c => satisfying (Text.foldsTo c))

def longestRun (p : Char → Bool) (before taken ahead : List Char) (shorter : List Cursor) :
    List Cursor :=
  match ahead with
  | [] => ⟨before, taken, []⟩ :: shorter
  | c :: rest =>
    if p c then longestRun p before (c :: taken) rest (⟨before, taken, c :: rest⟩ :: shorter)
    else ⟨before, taken, c :: rest⟩ :: shorter

def run (p : Char → Bool) : Pattern := fun place =>
  longestRun p place.before place.taken place.ahead []

def run1 (p : Char → Bool) : Pattern := sequence [satisfying p, run p]

def shortestRun (p : Char → Bool) (before taken : List Char) : List Char → List Cursor
  | [] => [⟨before, taken, []⟩]
  | c :: rest =>
    ⟨before, taken, c :: rest⟩ :: (if p c then shortestRun p before (c :: taken) rest else [])

def lazyRun (p : Char → Bool) : Pattern := fun place =>
  shortestRun p place.before place.taken place.ahead

def spanFrom (p : Char → Bool) (before taken : List Char) : List Char → Cursor
  | [] => ⟨before, taken, []⟩
  | c :: rest => if p c then spanFrom p before (c :: taken) rest else ⟨before, taken, c :: rest⟩

/-- The longest run and no shorter one. It serves where what comes next could not begin with a
character of the run. -/
def span (p : Char → Bool) : Pattern := fun place =>
  [spanFrom p place.before place.taken place.ahead]

def span1 (p : Char → Bool) : Pattern := sequence [satisfying p, span p]

/-- The places after any number of matches in a row, more of them before fewer. -/
def repeated (p : Pattern) : Nat → Cursor → List Cursor → List Cursor
  | 0, place, fewer => place :: fewer
  | turns + 1, place, fewer =>
    (p place).foldr (fun next rest => repeated p turns next rest) (place :: fewer)

/-- Any number of matches of a pattern that takes at least one character: the characters ahead
bound their number. -/
def many (p : Pattern) : Pattern := fun place => repeated p place.ahead.length place []

def boundary : Pattern := fun place =>
  let isWordBefore := match place.taken with
    | [] => place.before.head?.any Text.isWord
    | c :: _ => Text.isWord c
  let isWordAfter := place.ahead.head?.any Text.isWord
  if isWordBefore != isWordAfter then [place] else []

def atEnd : Pattern := fun place => if place.ahead.isEmpty then [place] else []

def blanks : Pattern := span Text.isBlank

def blanks1 : Pattern := span1 Text.isBlank

def word : Pattern := span1 Text.isWord

def name : Pattern := sequence [satisfying Text.isNameStart, span Text.isWord]

structure Match where
  before : List Char
  text : List Char
  after : List Char
deriving DecidableEq, Repr

def Match.start (m : Match) : Cursor := ⟨m.before, [], m.text ++ m.after⟩

def matchAt? (p : Pattern) (before ahead : List Char) : Option Match :=
  (p ⟨before, [], ahead⟩).head?.map fun stop => ⟨before, stop.taken.reverse, stop.ahead⟩

/-- The matches from left to right, none overlapping the one before it. `covered` counts the
characters that the last match still covers. -/
def matchesFrom (p : Pattern) (before : List Char) (covered : Nat) : List Char → List Match
  | [] => []
  | c :: ahead =>
    match covered with
    | n + 1 => matchesFrom p (c :: before) n ahead
    | 0 =>
      match matchAt? p before (c :: ahead) with
      | none => matchesFrom p (c :: before) 0 ahead
      | some found => found :: matchesFrom p (c :: before) (found.text.length - 1) ahead

/-- For a pattern that takes at least one character. -/
def allMatches (p : Pattern) (text : List Char) : List Match := matchesFrom p [] 0 text

def replaceFrom (p : Pattern) (f : List Char → List Char) (before : List Char) (covered : Nat) :
    List Char → List Char
  | [] => []
  | c :: ahead =>
    match covered with
    | n + 1 => replaceFrom p f (c :: before) n ahead
    | 0 =>
      match matchAt? p before (c :: ahead) with
      | none => c :: replaceFrom p f (c :: before) 0 ahead
      | some found =>
        f found.text ++ replaceFrom p f (c :: before) (found.text.length - 1) ahead

def replaceAll (p : Pattern) (f : List Char → List Char) (text : List Char) : List Char :=
  replaceFrom p f [] 0 text

def countMatches (p : Pattern) (text : List Char) : Nat := (allMatches p text).length

def opens (p : Pattern) (text : List Char) : Bool := (matchAt? p [] text).isSome

def covers (p : Pattern) (text : List Char) : Bool := opens (sequence [p, atEnd]) text

end Pattern

end Authorship
