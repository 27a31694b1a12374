import Authorship.Json.Reader
import Authorship.Toml.Value

/- TOML values that fit on one line: numbers, dates, words and strings. -/
namespace Authorship.Toml

open Decimal (Literal)

abbrev Rest := List Char

abbrev Reader (β : Type) := Rest → Option (β × Rest)

def isSpace (c : Char) : Bool := c = ' ' || c = '\t'

def skipSpace (cs : Rest) : Rest := cs.dropWhile isSpace

def isPlain (c : Char) : Bool := c = '\t' || (' ' ≤ c && c != '\x7f')

def readDigits (isDigit : Char → Bool) : Rest → Option (List Char × Rest)
  | [] => none
  | [c] => if isDigit c then some ([c], []) else none
  | c :: '_' :: cs =>
    if isDigit c then (readDigits isDigit cs).map fun (ds, rest) => (c :: ds, rest) else none
  | c :: d :: cs =>
    if isDigit c then
      if isDigit d then (readDigits isDigit (d :: cs)).map fun (ds, rest) => (c :: ds, rest)
      else some ([c], d :: cs)
    else none

def readSign : Rest → Bool × Rest
  | '-' :: cs => (true, cs)
  | '+' :: cs => (false, cs)
  | cs => (false, cs)

/-- The digits of a decimal number, which begin with a zero only if they are nothing else. -/
def readDecimal (cs : Rest) : Option (List Char × Rest) :=
  match cs with
  | '0' :: rest => some (['0'], rest)
  | _ => readDigits Char.isDigit cs

def readFraction : Rest → Option (List Char × Rest)
  | '.' :: cs => readDigits Char.isDigit cs
  | _ => none

def readExponent (cs : Rest) : Option (Int × Rest) :=
  match cs with
  | c :: cs =>
    if c = 'e' || c = 'E' then do
      let (negative, cs) := readSign cs
      let (digits, rest) ← readDigits Char.isDigit cs
      let e : Int := Json.digitsValue digits
      return (if negative then -e else e, rest)
    else none
  | [] => none

/-- A number with a fraction, an exponent or both. One that is too large for a double is refused
if it is positive. -/
def readFloat (cs : Rest) : Option (Value × Rest) := do
  let (negative, cs) := readSign cs
  let (whole, afterWhole) ← readDecimal cs
  let (places, afterPlaces) := (readFraction afterWhole).getD ([], afterWhole)
  let (exponent, rest) := (readExponent afterPlaces).getD (0, afterPlaces)
  if rest.length = afterWhole.length then none
  else
    let digits := Json.digitsValue (whole ++ places)
    let e := exponent - (places.length : Int)
    if !negative && (Decimal.nearestFloat digits e).isInf then none
    else some (.real (.finite negative digits e), rest)

def readWordNumber (cs : Rest) : Option (Value × Rest) :=
  let (negative, cs) := readSign cs
  match cs with
  | 'i' :: 'n' :: 'f' :: rest => some (.real (.infinite negative), rest)
  | 'n' :: 'a' :: 'n' :: rest => some (.real .nan, rest)
  | _ => none

def intInRange (n : Int) : Option Value :=
  let limit : Int := (Nat.pow 2 63 : Nat)
  if -limit ≤ n && n < limit then some (.int n) else none

def hexValue (digits : List Char) : Nat :=
  digits.foldl (fun n c => n * 16 + (Json.hexDigit? c).getD 0) 0

def valueInBase (base : Nat) (digits : List Char) : Nat :=
  digits.foldl (fun n c => n * base + Json.digitValue c) 0

def readInteger (cs : Rest) : Option (Value × Rest) :=
  match cs with
  | '0' :: 'x' :: cs => do
    let (digits, rest) ← readDigits (fun c => (Json.hexDigit? c).isSome) cs
    return (← intInRange (hexValue digits), rest)
  | '0' :: 'o' :: cs => do
    let (digits, rest) ← readDigits (fun c => '0' ≤ c && c ≤ '7') cs
    return (← intInRange (valueInBase 8 digits), rest)
  | '0' :: 'b' :: cs => do
    let (digits, rest) ← readDigits (fun c => c = '0' || c = '1') cs
    return (← intInRange (valueInBase 2 digits), rest)
  | cs => do
    let (negative, cs) := readSign cs
    let (digits, rest) ← readDecimal cs
    let n : Int := Json.digitsValue digits
    return (← intInRange (if negative then -n else n), rest)

def readField (width low high : Nat) (cs : Rest) : Option (Nat × Rest) :=
  let digits := cs.take width
  let n := Json.digitsValue digits
  if digits.length = width && digits.all Char.isDigit && low ≤ n && n ≤ high then
    some (n, cs.drop width)
  else none

def expect (c : Char) : Rest → Option Rest
  | d :: cs => if c = d then some cs else none
  | [] => none

def isLeapYear (year : Nat) : Bool := year % 4 = 0 && (year % 100 != 0 || year % 400 = 0)

def daysInMonth (year month : Nat) : Nat :=
  if month = 2 then (if isLeapYear year then 29 else 28)
  else if [4, 6, 9, 11].contains month then 30 else 31

def readDate (cs : Rest) : Option Rest := do
  let (year, cs) ← readField 4 0 9999 cs
  let cs ← expect '-' cs
  let (month, cs) ← readField 2 1 12 cs
  let cs ← expect '-' cs
  let (_, cs) ← readField 2 1 (daysInMonth year month) cs
  return cs

def skipSecondFraction (cs : Rest) : Rest :=
  match cs with
  | '.' :: d :: rest => if d.isDigit then rest.dropWhile Char.isDigit else cs
  | _ => cs

def readTime (cs : Rest) : Option Rest := do
  let (_, cs) ← readField 2 0 23 cs
  let cs ← expect ':' cs
  let (_, cs) ← readField 2 0 59 cs
  let cs ← expect ':' cs
  let (_, cs) ← readField 2 0 60 cs
  return skipSecondFraction cs

def readOffset (cs : Rest) : Option Rest :=
  match cs with
  | c :: rest =>
    if c = 'Z' || c = 'z' then some rest
    else if c = '+' || c = '-' then do
      let (_, cs) ← readField 2 0 23 rest
      let cs ← expect ':' cs
      let (_, cs) ← readField 2 0 59 cs
      return cs
    else none
  | [] => none

def readTimeAfterDate (cs : Rest) : Option Rest :=
  match cs with
  | c :: rest =>
    if c = 'T' || c = 't' || c = ' ' then do
      let cs ← readTime rest
      return (readOffset cs).getD cs
    else none
  | [] => none

def readMoment (cs : Rest) : Option (Value × Rest) :=
  match readDate cs with
  | some rest => some (.moment, (readTimeAfterDate rest).getD rest)
  | none => (readTime cs).map (.moment, ·)

def firstOf {β : Type} (readers : List (Reader β)) (cs : Rest) : Option (β × Rest) :=
  readers.findSome? (· cs)

def readNumber : Reader Value := firstOf [readMoment, readFloat, readWordNumber, readInteger]

def readBool (cs : Rest) : Option (Value × Rest) :=
  match cs with
  | 't' :: 'r' :: 'u' :: 'e' :: rest => some (.bool true, rest)
  | 'f' :: 'a' :: 'l' :: 's' :: 'e' :: rest => some (.bool false, rest)
  | _ => none

def simpleEscape? : Char → Option Char
  | 'b' => some '\x08'
  | 't' => some '\t'
  | 'n' => some '\n'
  | 'f' => some '\x0c'
  | 'r' => some '\r'
  | '"' => some '"'
  | '\\' => some '\\'
  | _ => none

def codePoint? (digits : List Char) : Option Char :=
  let n := hexValue digits
  if digits.all (fun c => (Json.hexDigit? c).isSome) && n.isValidChar then some (Char.ofNat n)
  else none

def isLineBreak : Rest → Bool
  | '\n' :: _ => true
  | '\r' :: '\n' :: _ => true
  | _ => false

def dropLineBreak : Rest → Rest
  | '\n' :: cs => cs
  | '\r' :: '\n' :: cs => cs
  | cs => cs

def readBasic : Rest → Option (List Char × Rest)
  | [] => none
  | '"' :: rest => some ([], rest)
  | '\\' :: 'u' :: a :: b :: c :: d :: rest => do
    let escaped ← codePoint? [a, b, c, d]
    let (text, after) ← readBasic rest
    return (escaped :: text, after)
  | '\\' :: 'U' :: a :: b :: c :: d :: e :: f :: g :: h :: rest => do
    let escaped ← codePoint? [a, b, c, d, e, f, g, h]
    let (text, after) ← readBasic rest
    return (escaped :: text, after)
  | '\\' :: c :: rest => do
    let escaped ← simpleEscape? c
    let (text, after) ← readBasic rest
    return (escaped :: text, after)
  | c :: rest =>
    if isPlain c && c != '\\' then do
      let (text, after) ← readBasic rest
      return (c :: text, after)
    else none

def readLiteral : Rest → Option (List Char × Rest)
  | [] => none
  | '\'' :: rest => some ([], rest)
  | c :: rest =>
    if isPlain c then do
      let (text, after) ← readLiteral rest
      return (c :: text, after)
    else none

/-- Up to two more quotes may stand before the three that end a text of several lines. -/
def closeQuotes (quote : Char) (cs : Rest) : Option (List Char × Rest) :=
  let count := (cs.takeWhile (· = quote)).length
  if 3 ≤ count then
    let kept := min 2 (count - 3)
    some (List.replicate kept quote, cs.drop (kept + 3))
  else none

def endsLine (cs : Rest) : Bool := isLineBreak (skipSpace cs)

/-- The text up to three quotes. A backslash at the end of a line joins it to the next character
that is no blank, which is what `isJoining` remembers. -/
def readMultiBasic (isJoining : Bool) : Rest → Option (List Char × Rest)
  | [] => none
  | '\r' :: '\n' :: rest => do
    let (text, after) ← readMultiBasic isJoining rest
    return (if isJoining then text else '\n' :: text, after)
  | '\\' :: 'u' :: a :: b :: c :: d :: rest => do
    let escaped ← codePoint? [a, b, c, d]
    let (text, after) ← readMultiBasic false rest
    return (escaped :: text, after)
  | '\\' :: 'U' :: a :: b :: c :: d :: e :: f :: g :: h :: rest => do
    let escaped ← codePoint? [a, b, c, d, e, f, g, h]
    let (text, after) ← readMultiBasic false rest
    return (escaped :: text, after)
  | '\\' :: c :: rest =>
    if endsLine (c :: rest) then readMultiBasic true (c :: rest)
    else do
      let escaped ← simpleEscape? c
      let (text, after) ← readMultiBasic false rest
      return (escaped :: text, after)
  | c :: rest =>
    if c = '"' && (closeQuotes '"' (c :: rest)).isSome then closeQuotes '"' (c :: rest)
    else if isJoining && (isSpace c || c = '\n') then readMultiBasic true rest
    else if (isPlain c || c = '\n') && c != '\\' then do
      let (text, after) ← readMultiBasic false rest
      return (c :: text, after)
    else none

def readMultiLiteral : Rest → Option (List Char × Rest)
  | [] => none
  | '\r' :: '\n' :: rest => do
    let (text, after) ← readMultiLiteral rest
    return ('\n' :: text, after)
  | c :: rest =>
    if c = '\'' && (closeQuotes '\'' (c :: rest)).isSome then closeQuotes '\'' (c :: rest)
    else if isPlain c || c = '\n' then do
      let (text, after) ← readMultiLiteral rest
      return (c :: text, after)
    else none

def readString (cs : Rest) : Option (Value × Rest) :=
  let asText (result : Option (List Char × Rest)) : Option (Value × Rest) :=
    result.map fun (text, rest) => (.text (String.ofList text), rest)
  match cs with
  | '"' :: '"' :: '"' :: rest => asText (readMultiBasic false (dropLineBreak rest))
  | '\'' :: '\'' :: '\'' :: rest => asText (readMultiLiteral (dropLineBreak rest))
  | '"' :: rest => asText (readBasic rest)
  | '\'' :: rest => asText (readLiteral rest)
  | _ => none

end Authorship.Toml
