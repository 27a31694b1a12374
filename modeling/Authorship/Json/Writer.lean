import Authorship.Decimal.Text
import Authorship.Json.Value

/- Writing JSON text, on one line or indented. -/
namespace Authorship.Json

def hexChar (n : Nat) : Char := Nat.digitChar n

def escape : Char → List Char
  | '"' => ['\\', '"']
  | '\\' => ['\\', '\\']
  | '\x08' => ['\\', 'b']
  | '\x0c' => ['\\', 'f']
  | '\n' => ['\\', 'n']
  | '\r' => ['\\', 'r']
  | '\t' => ['\\', 't']
  | c =>
    if c.toNat < 0x20 then ['\\', 'u', '0', '0', hexChar (c.toNat / 16), hexChar (c.toNat % 16)]
    else [c]

def quoted (text : String) : List Char := '"' :: text.toList.flatMap escape ++ ['"']

/-- What is no number has no JSON text of its own and is written as null. -/
def realChars (x : Float) : List Char := ((Decimal.floatText? x).getD "null").toList

def indentWidth : Nat := 2

/-- How the parts of a value are laid out; `none` is one line without blanks. -/
abbrev Layout := Option Nat

namespace Layout

def newline : Layout → List Char
  | none => []
  | some depth => '\n' :: List.replicate (indentWidth * depth) ' '

def deeper (layout : Layout) : Layout := layout.map (· + 1)

def colon (layout : Layout) : List Char := if layout.isSome then [':', ' '] else [':']

end Layout

mutual

def writeChars (layout : Layout) : Value → List Char
  | .null => "null".toList
  | .bool b => (if b then "true" else "false").toList
  | .int n => (Decimal.intText n).toList
  | .real x => realChars x
  | .text s => quoted s
  | .list [] => ['[', ']']
  | .list (item :: items) =>
    '[' :: layout.deeper.newline ++ writeChars layout.deeper item ++
      (writeItems layout.deeper items ++ (layout.newline ++ [']']))
  | .object [] => ['{', '}']
  | .object ((key, value) :: entries) =>
    '{' :: layout.deeper.newline ++ quoted key ++ layout.colon ++
      writeChars layout.deeper value ++
        (writeEntries layout.deeper entries ++ (layout.newline ++ ['}']))

def writeItems (layout : Layout) : List Value → List Char
  | [] => []
  | item :: items => ',' :: layout.newline ++ writeChars layout item ++ writeItems layout items

def writeEntries (layout : Layout) : List (String × Value) → List Char
  | [] => []
  | (key, value) :: entries =>
    ',' :: layout.newline ++ quoted key ++ layout.colon ++ writeChars layout value ++
      writeEntries layout entries

end

def compact (v : Value) : String := String.ofList (writeChars none v)

def pretty (v : Value) : String := String.ofList (writeChars (some 0) v)

end Authorship.Json
