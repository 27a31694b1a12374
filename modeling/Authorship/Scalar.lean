/-
Scores, means and weights are computed over any number type that has the operations of `Scalar`.
The program runs on doubles; the laws of the scoring rules are stated over the rationals, where
nothing is rounded.
-/
namespace Authorship

class Scalar (α : Type) extends
    Add α, Sub α, Mul α, Div α, Neg α, LT α, LE α, BEq α, OfScientific α where
  count : Nat → α
  abs : α → α
  /-- The nearest integer, a half going away from zero. -/
  round : α → α
  isFinite : α → Bool
  isNaN : α → Bool
  lessThan : DecidableRel ((· < ·) : α → α → Prop)
  atMost : DecidableRel ((· ≤ ·) : α → α → Prop)

/-- Roots and logarithms, which only the measurements need. -/
class Analytic (α : Type) extends Scalar α where
  sqrt : α → α
  ln : α → α
  log2 : α → α

namespace Scalar

variable {α : Type} [Scalar α]

instance decidableLessThan (a b : α) : Decidable (a < b) := lessThan a b

instance decidableAtMost (a b : α) : Decidable (a ≤ b) := atMost a b

def zero : α := count 0

def one : α := count 1

/-- A value that compares with neither end, as NaN does, stays as it is. -/
def clamp (low high x : α) : α :=
  let raised := if x < low then low else x
  if high < raised then high else raised

def larger (a b : α) : α := if a < b then b else a

def square (x : α) : α := x * x

/-- A count divided by another, the latter taken as at least one. -/
def per (part whole : α) : α := part / larger one whole

def perCount (part whole : Nat) : α := per (count part) (count whole)

/-- Doubles tell the sign of zero, and an empty sum has the sign that keeps `-0 + -0` at `-0`. -/
def sum (xs : List α) : α := xs.foldl (· + ·) (-zero)

def mean (xs : List α) : α := sum xs / count xs.length

end Scalar

instance : Scalar Float where
  count := Float.ofNat
  abs := Float.abs
  round := Float.round
  isFinite := Float.isFinite
  isNaN := Float.isNaN
  lessThan := inferInstance
  atMost := inferInstance

instance : Analytic Float where
  sqrt := Float.sqrt
  ln := Float.log
  log2 := Float.log2

instance : Scalar Rat where
  count n := (n : Rat)
  abs := Rat.abs
  round x := if x < 0 then -((-x + 1/2).floor : Rat) else ((x + 1/2).floor : Rat)
  isFinite _ := true
  isNaN _ := false
  lessThan := inferInstance
  atMost := inferInstance

end Authorship
