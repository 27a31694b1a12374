/- Doubles taken apart. -/
namespace Authorship.Decimal

/-- What a double is: `mantissa * 2 ^ exponent`, or no number at all. -/
inductive Binary where
  | finite (negative : Bool) (mantissa : Nat) (exponent : Int)
  | infinite (negative : Bool)
  | nan
deriving DecidableEq, Repr

def mantissaBits : Nat := 52

def leastExponent : Int := -1074

/-- An exponent field of all ones stands for no number, and one of zero for the numbers too small
to have a leading bit of their own. -/
def binaryOf (x : Float) : Binary :=
  let bits := x.toBits.toNat
  let negative := bits / Nat.pow 2 63 = 1
  let field := bits / Nat.pow 2 mantissaBits % Nat.pow 2 11
  let fraction := bits % Nat.pow 2 mantissaBits
  if field = 2047 then (if fraction = 0 then .infinite negative else .nan)
  else if field = 0 then .finite negative fraction leastExponent
  else .finite negative (Nat.pow 2 mantissaBits + fraction) (leastExponent + (field - 1 : Nat))

end Authorship.Decimal
