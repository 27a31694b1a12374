import Authorship.Json.Value

/-
What the text of a number stands for. The significant digits are kept as far as 64 bits hold them
and then scaled by one power of ten, which is off by a unit in the last place now and then.
-/
namespace Authorship.Json

structure NumberText where
  negative : Bool
  whole : List Char
  places : Option (List Char)
  exponent : Option (Bool × List Char)
deriving Repr

def significandLimit : Nat := Nat.pow 2 64

def digitValue (c : Char) : Nat := c.toNat - '0'.toNat

/-- The number so far continued by digits for as long as it stays below the limit, and how many
digits that took. -/
def absorb (n : Nat) : List Char → Nat × Nat
  | [] => (n, 0)
  | c :: cs =>
    let next := n * 10 + digitValue c
    if next < significandLimit then
      let (result, taken) := absorb next cs
      (result, taken + 1)
    else (n, 0)

def digitsValue (digits : List Char) : Nat := digits.foldl (fun n c => n * 10 + digitValue c) 0

def powerOfTen (e : Nat) : Float := Float.ofScientific 1 false e

def greatestPower : Nat := 308

/-- Below the smallest power of ten it takes several divisions; three of them turn any significand
into zero. There is no value when the result is too large for a double. -/
def scaleByTen (turns : Nat) (x : Float) (e : Int) : Option Float :=
  if e.natAbs ≤ greatestPower then
    if 0 ≤ e then
      let result := x * powerOfTen e.natAbs
      if result.isInf then none else some result
    else some (x / powerOfTen e.natAbs)
  else if x == 0.0 then some x
  else if 0 ≤ e then none
  else
    match turns with
    | 0 => some x
    | turns + 1 => scaleByTen turns (x / powerOfTen greatestPower) (e + greatestPower)

def signed (negative : Bool) (x : Float) : Float := if negative then -x else x

/-- Exponents are counted in 32 bits; beyond them a number is zero or too large. -/
def exponentLimit : Nat := Nat.pow 2 31

def realValue (negative : Bool) (significand : Nat) (start : Int)
    (exponent : Option (Bool × List Char)) : Option Float :=
  let scale (e : Int) := (scaleByTen 3 (Float.ofNat significand) e).map (signed negative)
  match exponent with
  | none => scale start
  | some (isNegative, digits) =>
    let e := digitsValue digits
    if e < exponentLimit then scale (if isNegative then start - e else start + e)
    else if significand = 0 || isNegative then some (signed negative 0.0)
    else none

/-- An integer that 64 bits do not hold is a double, and so is minus zero. -/
def NumberText.value (t : NumberText) : Option Value :=
  let (whole, taken) := absorb 0 t.whole
  let dropped : Int := (t.whole.length - taken : Nat)
  match t.places, t.exponent with
  | none, none =>
    if dropped ≠ 0 then (realValue t.negative whole dropped none).map .real
    else if !t.negative then some (.int whole)
    else if whole = 0 || Nat.pow 2 63 < whole then some (.real (-(Float.ofNat whole)))
    else some (.int (-whole))
  | places, exponent =>
    let (significand, taken) := absorb whole (places.getD [])
    (realValue t.negative significand (dropped - taken) exponent).map .real

end Authorship.Json
