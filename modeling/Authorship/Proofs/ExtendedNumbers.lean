import Authorship.Decimal.Literal
import Authorship.Proofs.ExactArithmetic

/-
Exact numbers together with the infinities and what is no number, which a text can spell too. The
operations are those of doubles with nothing rounded. There is one zero, taken as positive where a
number is divided by it.
-/
namespace Authorship

inductive Extended where
  | finite (x : Rat)
  | infinite (negative : Bool)
  | nan
deriving DecidableEq, Repr

namespace Extended

def add : Extended → Extended → Extended
  | .finite x, .finite y => .finite (x + y)
  | .finite _, .infinite s => .infinite s
  | .infinite s, .finite _ => .infinite s
  | .infinite s, .infinite t => if s = t then .infinite s else .nan
  | .nan, _ => .nan
  | _, .nan => .nan

def neg : Extended → Extended
  | .finite x => .finite (-x)
  | .infinite s => .infinite (!s)
  | .nan => .nan

def scaleInfinity (s : Bool) (x : Rat) : Extended :=
  if x = 0 then .nan else .infinite (s != (x < 0))

def mul : Extended → Extended → Extended
  | .finite x, .finite y => .finite (x * y)
  | .finite x, .infinite s => scaleInfinity s x
  | .infinite s, .finite x => scaleInfinity s x
  | .infinite s, .infinite t => .infinite (s != t)
  | .nan, _ => .nan
  | _, .nan => .nan

def div : Extended → Extended → Extended
  | .finite x, .finite y =>
    if y ≠ 0 then .finite (x / y) else if x = 0 then .nan else .infinite (x < 0)
  | .finite _, .infinite _ => .finite 0
  | .infinite s, .finite x => .infinite (s != (x < 0))
  | .infinite _, .infinite _ => .nan
  | .nan, _ => .nan
  | _, .nan => .nan

def below : Extended → Extended → Bool
  | .finite x, .finite y => x < y
  | .finite _, .infinite s => !s
  | .infinite s, .finite _ => s
  | .infinite s, .infinite t => s && !t
  | .nan, _ => false
  | _, .nan => false

def equal : Extended → Extended → Bool
  | .finite x, .finite y => x = y
  | .infinite s, .infinite t => s = t
  | _, _ => false

def map (f : Rat → Rat) : Extended → Extended
  | .finite x => .finite (f x)
  | other => other

def isFinite : Extended → Bool
  | .finite _ => true
  | _ => false

instance : Scalar Extended where
  add := add
  sub a b := add a (neg b)
  mul := mul
  div := div
  neg := neg
  lt a b := below a b = true
  le a b := below a b = true ∨ equal a b = true
  beq := equal
  ofScientific digits negative exponent :=
    .finite (OfScientific.ofScientific digits negative exponent)
  count n := .finite n
  abs
    | .finite x => .finite (Scalar.abs x)
    | .infinite _ => .infinite false
    | .nan => .nan
  round := map Scalar.round
  isFinite := isFinite
  isNaN x := x = .nan
  lessThan a b := inferInstanceAs (Decidable (below a b = true))
  atMost a b := inferInstanceAs (Decidable (below a b = true ∨ equal a b = true))

/- Among finite values the operations are those of exact numbers. -/
section

variable (x y : Rat)

@[simp] theorem finite_add : Extended.finite x + .finite y = .finite (x + y) := rfl

@[simp] theorem finite_sub : Extended.finite x - .finite y = .finite (x - y) := by
  rw [sub_eq_add_neg]
  rfl

@[simp] theorem finite_abs : Scalar.abs (Extended.finite x) = .finite (Scalar.abs x) := rfl

@[simp] theorem finite_less : Extended.finite x < .finite y ↔ x < y := decide_eq_true_iff

@[simp] theorem finite_at_most : Extended.finite x ≤ .finite y ↔ x ≤ y := by
  rw [le_iff_lt_or_eq]
  exact or_congr decide_eq_true_iff decide_eq_true_iff

@[simp] theorem one_finite : (Scalar.one : Extended) = .finite 1 := rfl

theorem finite_div {x y : Rat} (some : y ≠ 0) :
    Extended.finite x / .finite y = .finite (x / y) := if_pos some

end

/- A sum is finite only where both summands are. -/

theorem add_unbounded {a b : Extended} (unbounded : isFinite a = false ∨ isFinite b = false) :
    isFinite (a + b) = false := by
  change isFinite (add a b) = false
  rcases unbounded with first | second
  · cases a with
    | finite x => cases first
    | infinite s =>
      cases b with
      | infinite t =>
        rw [add]
        split <;> rfl
      | _ => rfl
    | nan => rfl
  · cases b with
    | finite x => cases second
    | infinite s =>
      cases a with
      | infinite t =>
        rw [add]
        split <;> rfl
      | _ => rfl
    | nan => cases a <;> rfl

theorem sub_unbounded {a : Extended} (unbounded : isFinite a = false) (b : Extended) :
    isFinite (a - b) = false := add_unbounded (Or.inl unbounded)

theorem size_of_unbounded {a : Extended} (unbounded : isFinite a = false) (x : Rat) :
    ¬ Scalar.abs a < .finite x := by
  cases a with
  | finite y => cases unbounded
  | infinite s => exact Bool.false_ne_true
  | nan => exact Bool.false_ne_true

theorem finite_of_is_finite {a : Extended} (bounded : isFinite a = true) :
    ∃ x, a = .finite x := by
  cases a with
  | finite x => exact ⟨x, rfl⟩
  | infinite s => cases bounded
  | nan => cases bounded

def ofLiteral : Decimal.Literal → Extended
  | .finite negative digits exponent =>
    .finite ((if negative then -1 else 1) * (digits : Rat) * 10 ^ exponent)
  | .infinite negative => .infinite negative
  | .nan => .nan

@[reducible] def reading (read : Decimal.Literal → Extended) : Readable Extended where
  ofLiteral := read

end Extended

end Authorship
