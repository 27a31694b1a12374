import Authorship.Json.Number
import Authorship.Table

/- Reading JSON text strictly: no comments, no trailing commas, nothing after the value. -/
namespace Authorship.Json

def isSpace (c : Char) : Bool := c = ' ' || c = '\n' || c = '\t' || c = '\r'

def skipSpace (cs : List Char) : List Char := cs.dropWhile isSpace

def hexDigit? (c : Char) : Option Nat :=
  if c.isDigit then some (c.toNat - '0'.toNat)
  else if 'a' ≤ c && c ≤ 'f' then some (c.toNat - 'a'.toNat + 10)
  else if 'A' ≤ c && c ≤ 'F' then some (c.toNat - 'A'.toNat + 10)
  else none

def hexUnit? (a b c d : Char) : Option Nat := do
  return (((← hexDigit? a) * 16 + (← hexDigit? b)) * 16 + (← hexDigit? c)) * 16 + (← hexDigit? d)

def isLeadSurrogate (unit : Nat) : Bool := 0xD800 ≤ unit && unit < 0xDC00

def isTrailSurrogate (unit : Nat) : Bool := 0xDC00 ≤ unit && unit < 0xE000

def surrogatePair (lead trail : Nat) : Char :=
  Char.ofNat (0x10000 + (lead - 0xD800) * 0x400 + (trail - 0xDC00))

def simpleEscape? : Char → Option Char
  | '"' => some '"'
  | '\\' => some '\\'
  | '/' => some '/'
  | 'b' => some '\x08'
  | 'f' => some '\x0c'
  | 'n' => some '\n'
  | 'r' => some '\r'
  | 't' => some '\t'
  | _ => none

/-- The text up to the closing quote and what follows that. Control characters must be escaped,
and surrogates come in pairs. -/
def readText : List Char → Option (List Char × List Char)
  | [] => none
  | '"' :: rest => some ([], rest)
  | '\\' :: 'u' :: a :: b :: c :: d :: rest => do
    let unit ← hexUnit? a b c d
    if isLeadSurrogate unit then
      match rest with
      | '\\' :: 'u' :: e :: f :: g :: h :: rest =>
        let trail ← hexUnit? e f g h
        if isTrailSurrogate trail then
          let (text, after) ← readText rest
          return (surrogatePair unit trail :: text, after)
        else none
      | _ => none
    else if isTrailSurrogate unit then none
    else
      let (text, after) ← readText rest
      return (Char.ofNat unit :: text, after)
  | '\\' :: c :: rest => do
    let escaped ← simpleEscape? c
    let (text, after) ← readText rest
    return (escaped :: text, after)
  | c :: rest =>
    if c = '\\' || c.toNat < 0x20 then none
    else do
      let (text, after) ← readText rest
      return (c :: text, after)

def digitsAhead (cs : List Char) : List Char × List Char :=
  (cs.takeWhile Char.isDigit, cs.dropWhile Char.isDigit)

def readPlaces (cs : List Char) : Option (Option (List Char) × List Char) :=
  match cs with
  | '.' :: cs =>
    match digitsAhead cs with
    | ([], _) => none
    | (digits, rest) => some (some digits, rest)
  | _ => some (none, cs)

def readExponentDigits (negative : Bool) (cs : List Char) :
    Option (Option (Bool × List Char) × List Char) :=
  match digitsAhead cs with
  | ([], _) => none
  | (digits, rest) => some (some (negative, digits), rest)

def readExponent (cs : List Char) : Option (Option (Bool × List Char) × List Char) :=
  match cs with
  | c :: rest =>
    if c = 'e' || c = 'E' then
      match rest with
      | '-' :: rest => readExponentDigits true rest
      | '+' :: rest => readExponentDigits false rest
      | rest => readExponentDigits false rest
    else some (none, cs)
  | [] => some (none, [])

/-- A number begins with a zero only if that is all there is before the point. -/
def readNumber (cs : List Char) : Option (Value × List Char) := do
  let (negative, cs) := match cs with
    | '-' :: rest => (true, rest)
    | _ => (false, cs)
  let (whole, cs) := digitsAhead cs
  match whole with
  | [] | '0' :: _ :: _ => none
  | whole =>
    let (places, cs) ← readPlaces cs
    let (exponent, cs) ← readExponent cs
    let value ← (NumberText.mk negative whole places exponent).value
    return (value, cs)

def depthLimit : Nat := 127

def dropLiteral? (word : String) (cs : List Char) : Option (List Char) :=
  if word.toList.isPrefixOf cs then some (cs.drop word.toList.length) else none

mutual

/-- Every turn takes a character at least. `depth` is how much deeper the text may nest. -/
def readValue (turns depth : Nat) (cs : List Char) : Option (Value × List Char) :=
  match turns with
  | 0 => none
  | turns + 1 =>
    match skipSpace cs with
    | [] => none
    | c :: cs =>
      match c with
      | '"' => (readText cs).map fun (text, rest) => (.text (String.ofList text), rest)
      | '[' =>
        match depth with
        | 0 => none
        | depth + 1 =>
          match skipSpace cs with
          | ']' :: rest => some (.list [], rest)
          | cs => (readItems turns depth cs).map fun (items, rest) => (.list items, rest)
      | '{' =>
        match depth with
        | 0 => none
        | depth + 1 =>
          match skipSpace cs with
          | '}' :: rest => some (.object [], rest)
          | cs => (readEntries turns depth [] cs).map fun (entries, rest) =>
            (.object entries, rest)
      | 't' => (dropLiteral? "rue" cs).map (.bool true, ·)
      | 'f' => (dropLiteral? "alse" cs).map (.bool false, ·)
      | 'n' => (dropLiteral? "ull" cs).map (.null, ·)
      | _ => readNumber (c :: cs)

def readItems (turns depth : Nat) (cs : List Char) : Option (List Value × List Char) :=
  match turns with
  | 0 => none
  | turns + 1 => do
    let (item, rest) ← readValue turns depth cs
    match skipSpace rest with
    | ']' :: rest => return ([item], rest)
    | ',' :: rest =>
      let (items, rest) ← readItems turns depth rest
      return (item :: items, rest)
    | _ => none

/-- Of two entries with one key the later one stays. -/
def readEntries (turns depth : Nat) (entries : List (String × Value)) (cs : List Char) :
    Option (List (String × Value) × List Char) :=
  match turns with
  | 0 => none
  | turns + 1 =>
    match skipSpace cs with
    | '"' :: cs => do
      let (key, rest) ← readText cs
      match skipSpace rest with
      | ':' :: rest =>
        let (value, rest) ← readValue turns depth rest
        let entries := insertEntry (String.ofList key) value entries
        match skipSpace rest with
        | '}' :: rest => return (entries, rest)
        | ',' :: rest => readEntries turns depth entries rest
        | _ => none
      | _ => none
    | _ => none

end

def readChars (cs : List Char) : Option Value :=
  match readValue (cs.length + 1) depthLimit cs with
  | some (value, rest) => if (skipSpace rest).isEmpty then some value else none
  | none => none

def read (text : String) : Option Value := readChars text.toList

end Authorship.Json
