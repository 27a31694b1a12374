import Authorship.Baseline.Stats
import Authorship.Sorting

/- The features that tell the two corpora apart best, ranked. -/
namespace Authorship.Baseline

open Feature Scalar

variable {α : Type} [Scalar α]

def defaultTopCount : Nat := 15

/-- The distance of two means in units of their average size. Where both are zero it is the
distance itself. -/
def effectSize (ai human : α) : α :=
  let difference := abs (ai - human)
  let average := (abs ai + abs human) / count 2
  if average == zero then difference else difference / average

def rankWeight (rank : Nat) : α := larger (0.20 - 0.01 * count rank) 0.05

structure CriticalFeature (α : Type) where
  name : String
  aiMean : α
  humanMean : α
  effectSize : α
  weight : α
  isHigherInAi : Bool
deriving DecidableEq, Repr

namespace CriticalFeature

def spread (c : CriticalFeature α) : α := abs (c.aiMean - c.humanMean)

end CriticalFeature

structure Profile (α : Type) where
  stats : Stats α
  critical : List (CriticalFeature α)

namespace Profile

def empty : Profile α := ⟨.empty, []⟩

def ranked (stats : Stats α) : List (String × α × α) :=
  sortBy (largerFirst (fun (_, ai, human) => effectSize ai human) (·.1))
    (stats.paired.filter fun (_, ai, human) => !(ai == human))

def criticalAt (rank : Nat) (name : String) (ai human : α) : CriticalFeature α :=
  ⟨name, ai, human, Baseline.effectSize ai human, rankWeight rank, decide (human < ai)⟩

def rankFrom (rank : Nat) : List (String × α × α) → List (CriticalFeature α)
  | [] => []
  | (name, ai, human) :: rest => criticalAt rank name ai human :: rankFrom (rank + 1) rest

def ofStats (stats : Stats α) (topCount : Nat) : Profile α :=
  ⟨stats, rankFrom 0 ((ranked stats).take topCount)⟩

/-- From pairs of means under any spelling of a feature's name. Pairs that are not finite or of no
known feature are passed over. -/
def ofMeans (means : List (String × α × α)) (topCount : Nat) : Profile α :=
  let stats := means.foldl (fun (stats : Stats α) (raw, ai, human) =>
    match canonicalName? raw with
    | none => stats
    | some name =>
      if isFinite ai && isFinite human then (stats.setMean .ai name ai).setMean .human name human
      else stats) .empty
  ofStats stats topCount

def referenceMeans : List (String × α × α) := [
  ("basic.comment_ratio", 0.066, 0.006),
  ("ast.indentation_consistency", 1.0, 0.952),
  ("naming.generic_var_ratio", 0.139, 0.526),
  ("ast.if_statements_per_loc", 0.007, 0.052),
  ("basic.cyclomatic_complexity", 1.073, 3.493),
  ("human_style.overall_human_score", 0.212, 0.697)]

def reference : Profile α := ofMeans referenceMeans defaultTopCount

def isEmpty (p : Profile α) : Bool := p.critical.isEmpty

def mean? (p : Profile α) (side : Side) (name : String) : Option α :=
  (p.stats.means side).get? name

def summaryCount : Nat := 5

def strongest (p : Profile α) : List (CriticalFeature α) := p.critical.take summaryCount

end Profile

end Authorship.Baseline
