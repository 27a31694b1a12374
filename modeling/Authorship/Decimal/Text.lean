import Authorship.Decimal.Shortest

/- Numbers as text. -/
namespace Authorship.Decimal

def digitChars (n : Nat) : List Char := Nat.toDigits 10 n

def natText (n : Nat) : String := String.ofList (digitChars n)

def intText (n : Int) : String :=
  if n < 0 then "-" ++ natText n.natAbs else natText n.natAbs

structure Form where
  leastPlain : Int
  greatestPlain : Int

def jsonForm : Form := ⟨-5, 15⟩

def dropTrailingZeros (digits : List Char) : List Char :=
  (digits.reverse.dropWhile (· = '0')).reverse

def pointedAfterFirst : List Char → List Char
  | [] => []
  | [d] => [d]
  | d :: ds => d :: '.' :: ds

/-- Digits whose first stands at the exponent `e`, written out with at least one place. -/
def writtenOut (digits : List Char) (e : Int) : List Char :=
  if e < 0 then "0.".toList ++ List.replicate ((-e).toNat - 1) '0' ++ digits
  else
    let whole := e.toNat + 1
    let places := digits.drop whole
    digits.take whole ++ List.replicate (whole - digits.length) '0' ++
      '.' :: (if places.isEmpty then ['0'] else places)

def withExponent (digits : List Char) (e : Int) : List Char :=
  pointedAfterFirst digits ++ 'e' :: (if e < 0 then '-' else '+') :: digitChars e.natAbs

def Form.write (form : Form) (d : Digits) : List Char :=
  let all := digitChars d.digits
  let e := d.exponent + (all.length - 1 : Nat)
  let digits := dropTrailingZeros all
  if form.leastPlain ≤ e ∧ e ≤ form.greatestPlain then writtenOut digits e
  else withExponent digits e

def signText (negative : Bool) (text : String) : String := if negative then "-" ++ text else text

def floatText? (x : Float) : Option String :=
  match binaryOf x with
  | .finite negative 0 _ => some (signText negative "0.0")
  | .finite negative m e => some (signText negative (String.ofList (jsonForm.write (shortest m e))))
  | _ => none

def fixedMagnitude (places : Nat) (m : Nat) (e : Int) : String :=
  let digits := digitChars ((scaled (m * Nat.pow 10 places) 2 e).round)
  let padded := List.replicate (places + 1 - digits.length) '0' ++ digits
  let whole := padded.length - places
  if places = 0 then String.ofList padded
  else String.ofList (padded.take whole ++ '.' :: padded.drop whole)

def fixedText (places : Nat) (x : Float) : String :=
  match binaryOf x with
  | .finite negative m e => signText negative (fixedMagnitude places m e)
  | .infinite negative => signText negative "inf"
  | .nan => "NaN"

/-- As `fixedText`, with a plus sign before what has no minus sign. NaN has no sign. -/
def signedFixedText (places : Nat) (x : Float) : String :=
  let text := fixedText places x
  if x.isNaN || text.startsWith "-" then text else "+" ++ text

def padLeft (width : Nat) (text : String) : String :=
  String.ofList (List.replicate (width - text.length) ' ' ++ text.toList)

def padRight (width : Nat) (text : String) : String :=
  String.ofList (text.toList ++ List.replicate (width - text.length) ' ')

end Authorship.Decimal
