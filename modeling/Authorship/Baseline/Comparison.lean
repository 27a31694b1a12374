import Authorship.Baseline.Profile
import Authorship.Feature.Vector

/- One file's features against the means of the machine-written corpus. -/
namespace Authorship.Baseline

open Feature Scalar

variable {α : Type} [Scalar α]

inductive Interpretation where
  | similar
  | higher
  | lower
deriving DecidableEq, Repr

def Interpretation.key : Interpretation → String
  | .similar => "similar_to_ai"
  | .higher => "higher_than_ai"
  | .lower => "lower_than_ai"

def Interpretation.label : Interpretation → String
  | .similar => "Similar to AI"
  | .higher => "Higher than AI"
  | .lower => "Lower than AI"

structure Comparison (α : Type) where
  feature : String
  category : String
  value : α
  aiMean : α
  difference : α
  percent : α
  interpretation : Interpretation
deriving DecidableEq, Repr

def similarPercent : α := 10.0

def interpret (difference percent : α) : Interpretation :=
  if abs percent < similarPercent then .similar
  else if zero < difference then .higher
  else .lower

def compareValue (feature : String) (value aiMean : α) : Comparison α :=
  let difference := value - aiMean
  let percent := if aiMean == zero then zero else difference / aiMean * count 100
  { feature, category := namespaceOf feature, value, aiMean, difference, percent
    interpretation := interpret difference percent }

def compareToAi (features : FeatureVector α) (profile : Profile α) : List (Comparison α) :=
  sortBy (largerFirst (fun c => abs c.percent) (·.feature))
    (features.entries.filterMap fun (name, value) =>
      (profile.mean? .ai name).map (compareValue name value))

end Authorship.Baseline
