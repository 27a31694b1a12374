import Authorship.Scalar

/- The ranges that feature values are kept in. -/
namespace Authorship.Feature

open Scalar

/-- Counts are capped so that sums of them stay finite. -/
def countCeiling : Nat := Nat.pow 10 12

/-- Stands for the ratio of code to comments when there are no comments. -/
def noCommentValue : Nat := 999

inductive Limit where
  | share
  | upTo (n : Nat)
  | count
deriving DecidableEq, Repr

structure Bound (α : Type) where
  low : α
  high : α
deriving DecidableEq, Repr

variable {α : Type} [Scalar α]

def Limit.bound : Limit → Bound α
  | .share => ⟨zero, one⟩
  | .upTo n => ⟨zero, Scalar.count n⟩
  | .count => ⟨zero, Scalar.count countCeiling⟩

/-- NaN counts as zero and an infinity as the end on its side. -/
def Bound.sanitize (b : Bound α) (x : α) : α :=
  if isNaN x then clamp b.low b.high zero
  else if !isFinite x then (if zero < x then b.high else b.low)
  else clamp b.low b.high x

end Authorship.Feature
