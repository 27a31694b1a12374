import Authorship.Json.Value
import Authorship.Toml.Value

/-
The tree of values that settings and results are read from, whichever of the two notations they are
written in.
-/
namespace Authorship.Document

open Decimal

inductive Node (α : Type) where
  | null
  | bool (b : Bool)
  | int (n : Int)
  | real (x : α)
  | text (s : String)
  | list (items : List (Node α))
  | table (entries : List (String × Node α))
  | moment
deriving Inhabited

/-- The notations differ in what they tolerate around a record or a choice. -/
inductive Encoding where
  | json
  | toml
deriving DecidableEq, Repr

mutual

def ofJson : Json.Value → Node Float
  | .null => .null
  | .bool b => .bool b
  | .int n => .int n
  | .real x => .real x
  | .text s => .text s
  | .list items => .list (ofJsonItems items)
  | .object entries => .table (ofJsonEntries entries)

def ofJsonItems : List Json.Value → List (Node Float)
  | [] => []
  | v :: vs => ofJson v :: ofJsonItems vs

def ofJsonEntries : List (String × Json.Value) → List (String × Node Float)
  | [] => []
  | (key, v) :: entries => (key, ofJson v) :: ofJsonEntries entries

end

variable {α : Type} [Readable α]

mutual

def ofToml : Toml.Value → Node α
  | .text s => .text s
  | .int n => .int n
  | .real x => .real (Readable.ofLiteral x)
  | .bool b => .bool b
  | .moment => .moment
  | .list items => .list (ofTomlItems items)
  | .table entries => .table (ofTomlEntries entries)

def ofTomlItems : List Toml.Value → List (Node α)
  | [] => []
  | v :: vs => ofToml v :: ofTomlItems vs

def ofTomlEntries : List (String × Toml.Value) → List (String × Node α)
  | [] => []
  | (key, v) :: entries => (key, ofToml v) :: ofTomlEntries entries

end

end Authorship.Document
