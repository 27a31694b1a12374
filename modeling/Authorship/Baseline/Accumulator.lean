import Authorship.Baseline.Instant
import Authorship.Baseline.Stats
import Authorship.Feature.Vector
import Authorship.Json.Writer

/-
Collects the feature vectors of two corpora and makes statistics of them. Accumulators over parts
of a corpus merge into the one over the whole.
-/
namespace Authorship.Baseline

open Scalar

/-- The values of every feature in the order in which they came, and how many vectors there
were. -/
structure Corpus (α : Type) where
  values : Table (List α)
  samples : Nat

namespace Corpus

variable {α : Type}

def empty : Corpus α := ⟨.empty, 0⟩

def append (t : Table (List α)) (entry : String × List α) : Table (List α) :=
  t.update entry.1 fun old => old.getD [] ++ entry.2

def add (c : Corpus α) (features : FeatureVector α) : Corpus α :=
  ⟨features.entries.foldl (fun t (name, x) => append t (name, [x])) c.values, c.samples + 1⟩

def merge (c other : Corpus α) : Corpus α :=
  ⟨other.values.entries.foldl append c.values, c.samples + other.samples⟩

end Corpus

structure Accumulator (α : Type) where
  ai : Corpus α
  human : Corpus α

/-- The population's standard deviation. -/
def deviation {α : Type} [Analytic α] (xs : List α) : α :=
  let center := mean xs
  Analytic.sqrt (mean (xs.map fun x => square (x - center)))

namespace Accumulator

variable {α : Type}

def empty : Accumulator α := ⟨.empty, .empty⟩

def corpus (a : Accumulator α) : Side → Corpus α
  | .ai => a.ai
  | .human => a.human

def add (a : Accumulator α) (side : Side) (features : FeatureVector α) : Accumulator α :=
  match side with
  | .ai => { a with ai := a.ai.add features }
  | .human => { a with human := a.human.add features }

def merge (a other : Accumulator α) : Accumulator α :=
  ⟨a.ai.merge other.ai, a.human.merge other.human⟩

def sideEntries (side : Side) (c : Corpus Float) : List (String × Json.Value) :=
  c.values.entries.flatMap fun (name, xs) =>
    [(name ++ side.meanSuffix, .real (mean xs)),
      (name ++ side.deviationSuffix, .real (deviation xs))]

def entries (a : Accumulator Float) (generatedAt : String) : List (String × Json.Value) :=
  let all := sideEntries .ai a.ai ++ sideEntries .human a.human ++
    [("ai_samples", .int a.ai.samples), ("human_samples", .int a.human.samples),
      ("generated_at", .text generatedAt)]
  (Table.ofList all).entries

def toJson (a : Accumulator Float) (written : Instant) : Json.Value :=
  .object (a.entries written.text)

/-- The means as they are read back from the statistics file. When it was written does not
matter. -/
def stats (a : Accumulator Float) : Stats Float := .ofEntries (a.entries "")

def fileText (a : Accumulator Float) (generatedAt : String) : String :=
  Json.pretty (.object (a.entries generatedAt))

end Accumulator

end Authorship.Baseline
