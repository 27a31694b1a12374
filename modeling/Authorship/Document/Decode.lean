import Authorship.Document.Node

/-
Reading typed values out of a tree. A record is a table of its fields or a list of them in order;
fields that it does not know count for nothing.
-/
namespace Authorship.Document

open Decimal

variable {α β : Type}

namespace Node

def flag? : Node α → Option Bool
  | .bool b => some b
  | _ => none

def text? : Node α → Option String
  | .text s => some s
  | _ => none

/-- A number without a fraction may stand for one that could have one, but not the other way
round. -/
def natural? : Node α → Option Nat
  | .int n => if 0 ≤ n then some n.natAbs else none
  | _ => none

def number? [Readable α] : Node α → Option α
  | .int n => some (Readable.ofLiteral (.finite (decide (n < 0)) n.natAbs 0))
  | .real x => some x
  | _ => none

def items? (decode : Node α → Option β) : Node α → Option (List β)
  | .list items => items.mapM decode
  | _ => none

def entries? (decode : Node α → Option β) : Node α → Option (List (String × β))
  | .table entries => entries.mapM fun (key, n) => (decode n).map (key, ·)
  | _ => none

end Node

namespace Encoding

/-- What may be written beside the name of a choice that carries nothing. -/
def isNothing (e : Encoding) (n : Node α) : Bool :=
  match e, n with
  | .json, .null => true
  | .toml, .list items => items.isEmpty
  | .toml, .table entries => entries.isEmpty
  | _, _ => false

def choice? (e : Encoding) (ofKey? : String → Option β) : Node α → Option β
  | .text key => ofKey? key
  | .table [(key, n)] => if e.isNothing n then ofKey? key else none
  | _ => none

/-- The fields of a record by their names. A moment is a record without any of them. -/
def fields? (e : Encoding) (names : List String) : Node α → Option (List (String × Node α))
  | .table entries => some entries
  | .list items =>
    if e = .json && names.length < items.length then none else some (names.zip items)
  | .moment => some []
  | _ => none

end Encoding

def required? (fields : List (String × Node α)) (name : String) (decode : Node α → Option β) :
    Option β :=
  (fields.lookup name).bind decode

def optional? (fields : List (String × Node α)) (name : String) (decode : Node α → Option β)
    (default : β) : Option β :=
  match fields.lookup name with
  | none => some default
  | some n => decode n

end Authorship.Document
