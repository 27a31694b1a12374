/- JSON values. -/
namespace Authorship.Json

/-- Numbers without a fraction or an exponent are integers. The entries of an object are written
in their order here; an object that was read has them in key order, each key once. -/
inductive Value where
  | null
  | bool (b : Bool)
  | int (n : Int)
  | real (x : Float)
  | text (s : String)
  | list (items : List Value)
  | object (entries : List (String × Value))
deriving Inhabited

namespace Value

def texts (ss : List String) : Value := .list (ss.map .text)

def field? (v : Value) (key : String) : Option Value :=
  match v with
  | .object entries => entries.lookup key
  | _ => none

def number? : Value → Option Float
  | .int n => some (Float.ofInt n)
  | .real x => some x
  | _ => none

end Value

end Authorship.Json
