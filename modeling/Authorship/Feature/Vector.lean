import Authorship.Feature.Schema
import Authorship.Table

/- Feature values by name. They are made finite and brought into their range on the way in. -/
namespace Authorship

open Scalar Feature

variable {α : Type} [Scalar α]

/-- A name outside the schema has no range; its infinities become the largest count. -/
def Feature.sanitizeNamed (name : String) (x : α) : α :=
  match lookup? name with
  | some spec => spec.limit.bound.sanitize x
  | none =>
    if isFinite x then x
    else if isNaN x then zero
    else if zero < x then count countCeiling
    else -count countCeiling

structure FeatureVector (α : Type) where
  values : Table α

namespace FeatureVector

def empty : FeatureVector α := ⟨.empty⟩

def insert (v : FeatureVector α) (name : String) (x : α) : FeatureVector α :=
  ⟨v.values.insert name (sanitizeNamed name x)⟩

def get? (v : FeatureVector α) (name : String) : Option α := v.values.get? name

def contains (v : FeatureVector α) (name : String) : Bool := v.values.contains name

def size (v : FeatureVector α) : Nat := v.values.size

def isEmpty (v : FeatureVector α) : Bool := v.values.isEmpty

def entries (v : FeatureVector α) : List (String × α) := v.values.entries

def ofList (entries : List (String × α)) : FeatureVector α :=
  entries.foldl (fun v entry => v.insert entry.1 entry.2) empty

def extend (v other : FeatureVector α) : FeatureVector α :=
  other.entries.foldl (fun v entry => v.insert entry.1 entry.2) v

def inNamespace (v : FeatureVector α) (group : String) : List (String × α) :=
  v.entries.filterMap fun (name, x) => (stripPrefix? (group ++ ".") name).map (·, x)

inductive Violation where
  | unknown (name : String)
  | missing (name : String)
deriving DecidableEq, Repr

def violations (v : FeatureVector α) : List Violation :=
  (v.values.names.filter (!isKnown ·)).map .unknown ++
    ((schema.map (·.name)).filter (!v.contains ·)).map .missing

end FeatureVector

end Authorship
