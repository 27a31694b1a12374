import Authorship.Scalar

/- How much each of the four signals weighs. -/
namespace Authorship.Detection

open Scalar

variable {α : Type}

structure Blend (α : Type) where
  baseline : α
  perfection : α
  simplicity : α
  chaos : α
deriving DecidableEq, Repr

namespace Blend

variable [Scalar α]

def default : Blend α := ⟨0.6, 0.2, 0.1, 0.1⟩

def weights (b : Blend α) : List α := [b.baseline, b.perfection, b.simplicity, b.chaos]

def total (b : Blend α) : α := b.baseline + b.perfection + b.simplicity + b.chaos

def tolerance : α := 0.001

def isValid (b : Blend α) : Bool :=
  (b.weights.all fun w => zero ≤ w) && abs (b.total - one) < tolerance

/-- Divided by their sum. Weights that cannot be are replaced by the default ones. -/
def normalize (b : Blend α) : Blend α :=
  if (b.weights.any fun w => !isFinite w || w < zero) || b.total ≤ zero then default
  else
    let total := b.total
    ⟨b.baseline / total, b.perfection / total, b.simplicity / total, b.chaos / total⟩

def repair (b : Blend α) : Blend α := if b.isValid then b else b.normalize

end Blend

end Authorship.Detection
