import Authorship.Counting
import Authorship.Text.Character

/- Cutting text into pieces, on lists of characters. -/
namespace Authorship.Text

def trimStart (cs : List Char) : List Char := cs.dropWhile isBlank

def trimEnd (cs : List Char) : List Char := (cs.reverse.dropWhile isBlank).reverse

def trim (cs : List Char) : List Char := trimEnd (trimStart cs)

def isBlankLine (cs : List Char) : Bool := cs.all isBlank

/-- The pieces between separators: one more than there are separators, the empty ones too. -/
def splitOn (separator : Char) : List Char → List (List Char)
  | [] => [[]]
  | c :: cs =>
    match splitOn separator cs with
    | [] => [[c]]
    | piece :: pieces =>
      if c = separator then [] :: piece :: pieces else (c :: piece) :: pieces

def joinWith (separator : Char) : List (List Char) → List Char
  | [] => []
  | [piece] => piece
  | piece :: pieces => piece ++ separator :: joinWith separator pieces

/-- A carriage return before a newline is dropped, one elsewhere is kept. -/
def withoutCarriageReturns : List Char → List Char
  | [] => []
  | '\r' :: '\n' :: cs => '\n' :: withoutCarriageReturns cs
  | c :: cs => c :: withoutCarriageReturns cs

def dropLineEnd (line : List Char) : List Char :=
  match line.getLast? with
  | some '\r' => line.dropLast
  | _ => line

/-- The physical lines: each is ended by a newline or a carriage return and a newline, and the
empty piece after a last newline is no line. -/
def lines (cs : List Char) : List (List Char) :=
  let pieces := splitOn '\n' cs
  match pieces.getLast? with
  | some [] => pieces.dropLast.map dropLineEnd
  | some last => pieces.dropLast.map dropLineEnd ++ [last]
  | none => []

def contains (needle : List Char) : List Char → Bool
  | [] => needle.isEmpty
  | c :: cs => needle.isPrefixOf (c :: cs) || contains needle cs

def utf8Length (cs : List Char) : Nat := sumOf (cs.map Char.utf8Size)

def lowerAscii (cs : List Char) : List Char := cs.map Char.toLower

end Authorship.Text
