import Authorship.Decimal.Binary

/-
The fewest decimal digits that read back as the same double, and of those the nearest to it, a tie
going to the even one.
-/
namespace Authorship.Decimal

/-- `digits * 10 ^ exponent`. -/
structure Digits where
  digits : Nat
  exponent : Int
deriving DecidableEq, Repr

structure Quotient where
  num : Nat
  den : Nat
deriving Repr

def scaled (m : Nat) (base : Nat) (e : Int) : Quotient :=
  if 0 ≤ e then ⟨m * base.pow e.toNat, 1⟩ else ⟨m, base.pow (-e).toNat⟩

def Quotient.le (a b : Quotient) : Bool := a.num * b.den ≤ b.num * a.den

def Quotient.lt (a b : Quotient) : Bool := a.num * b.den < b.num * a.den

def Quotient.round (x : Quotient) : Nat :=
  let lower := x.num / x.den
  let twice := 2 * (x.num % x.den)
  if twice < x.den then lower
  else if x.den < twice then lower + 1
  else if lower % 2 = 0 then lower else lower + 1

/-- The reals that round to `m * 2 ^ e`. The gap below a power of two is half as wide as the one
above it, and the ends belong to the double whose mantissa is even. -/
structure Interval where
  low : Quotient
  high : Quotient
  closed : Bool
deriving Repr

def roundingInterval (m : Nat) (e : Int) : Interval :=
  let low :=
    if m = Nat.pow 2 mantissaBits ∧ leastExponent < e then scaled (4 * m - 1) 2 (e - 2)
    else scaled (2 * m - 1) 2 (e - 1)
  ⟨low, scaled (2 * m + 1) 2 (e - 1), m % 2 = 0⟩

def Interval.holds (i : Interval) (x : Quotient) : Bool :=
  if i.closed then i.low.le x && x.le i.high else i.low.lt x && x.lt i.high

/-- The `e` with `10 ^ e ≤ x < 10 ^ (e + 1)`, from a guess that is off by one at most. -/
def decimalExponent (x : Quotient) (guess : Int) : Int :=
  if x.lt (scaled 1 10 guess) then guess - 1
  else if (scaled 1 10 (guess + 1)).le x then guess + 1
  else guess

/-- The neighbours of `x` among the multiples of `10 ^ e`, if they lie in the interval: the nearer
of two, and the even one if both are equally near. -/
def onGrid (x : Quotient) (i : Interval) (e : Int) : Option Nat :=
  let unit := scaled 1 10 e
  let onUnits : Quotient := ⟨x.num * unit.den, x.den * unit.num⟩
  let lower := onUnits.num / onUnits.den
  let isLowerIn := i.holds (scaled lower 10 e)
  let isUpperIn := i.holds (scaled (lower + 1) 10 e)
  if isLowerIn && isUpperIn then some onUnits.round
  else if isLowerIn then some lower
  else if isUpperIn then some (lower + 1)
  else none

def maxDigits : Nat := 17

def firstGrid (x : Quotient) (i : Interval) (e : Int) : Nat → Digits
  | 0 => ⟨0, 0⟩
  | turns + 1 =>
    let place := e - (maxDigits - (turns + 1) : Nat)
    match onGrid x i place with
    | some digits => ⟨digits, place⟩
    | none => firstGrid x i e turns

def shortest (m : Nat) (e : Int) : Digits :=
  let x := scaled m 2 e
  let guess := ((m.log2 + e) * 30103) / 100000
  firstGrid x (roundingInterval m e) (decimalExponent x guess) maxDigits

end Authorship.Decimal
