/- Sorting that keeps the order of elements of which neither comes before the other. -/
namespace Authorship

variable {α : Type}

def placeLast (isBefore : α → α → Bool) (x : α) : List α → List α
  | [] => [x]
  | y :: ys => if isBefore x y then y :: placeLast isBefore x ys else x :: y :: ys

def sortBy (isBefore : α → α → Bool) (xs : List α) : List α :=
  (xs.foldl (fun placed x => placeLast isBefore x placed) []).reverse

def largerFirst {κ : Type} [LT κ] [DecidableRel ((· < ·) : κ → κ → Prop)] (key : α → κ)
    (name : α → String) (x y : α) : Bool :=
  if key y < key x then true
  else if key x < key y then false
  else decide (name x < name y)

end Authorship
