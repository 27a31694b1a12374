import Authorship.Decimal.Text
import Authorship.Scalar

/- Numbers as a text spells them, before they become values of a number type. -/
namespace Authorship

namespace Decimal

/-- `digits * 10 ^ exponent`, or one of the words for what is no number. -/
inductive Literal where
  | finite (negative : Bool) (digits : Nat) (exponent : Int)
  | infinite (negative : Bool)
  | nan
deriving DecidableEq, Repr

def greatestExponent : Int := 400

/-- The nearest double. An exponent far out of range gives zero or infinity without being used. -/
def nearestFloat (digits : Nat) (exponent : Int) : Float :=
  let leading := exponent + (digitChars digits).length
  if digits = 0 || leading < -greatestExponent then 0.0
  else if greatestExponent < leading then 1.0 / 0.0
  else if 0 ≤ exponent then Float.ofScientific digits false exponent.natAbs
  else Float.ofScientific digits true exponent.natAbs

end Decimal

open Decimal

class Readable (α : Type) extends Scalar α where
  ofLiteral : Literal → α

instance : Readable Float where
  ofLiteral
    | .finite negative digits exponent =>
      let x := nearestFloat digits exponent
      if negative then -x else x
    | .infinite negative => if negative then -1.0 / 0.0 else 1.0 / 0.0
    | .nan => 0.0 / 0.0

end Authorship
