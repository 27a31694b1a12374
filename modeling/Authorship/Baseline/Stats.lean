import Authorship.Feature.Schema
import Authorship.Json.Reader

/-
Statistics: the mean of each feature over machine-written files and over files written by hand.
They are read from a flat JSON object whose other entries do not matter.
-/
namespace Authorship.Baseline

open Feature Scalar

inductive Side where
  | ai
  | human
deriving DecidableEq, Repr

structure Stats (α : Type) where
  ai : Table α
  human : Table α

def Side.meanSuffix : Side → String
  | .ai => "_ai_mean"
  | .human => "_human_mean"

def Side.deviationSuffix : Side → String
  | .ai => "_ai_std"
  | .human => "_human_std"

def stripSuffix? (suffix text : String) : Option String :=
  let cs := text.toList
  if suffix.toList.isSuffixOf cs then
    some (String.ofList (cs.take (cs.length - suffix.toList.length)))
  else none

def meanKey? (key : String) : Option (Side × String) :=
  match stripSuffix? Side.ai.meanSuffix key with
  | some raw => some (.ai, raw)
  | none => (stripSuffix? Side.human.meanSuffix key).map (.human, ·)

namespace Stats

variable {α : Type}

def empty : Stats α := ⟨.empty, .empty⟩

def means (s : Stats α) : Side → Table α
  | .ai => s.ai
  | .human => s.human

def setMean (s : Stats α) (side : Side) (name : String) (x : α) : Stats α :=
  match side with
  | .ai => { s with ai := s.ai.insert name x }
  | .human => { s with human := s.human.insert name x }

def paired (s : Stats α) : List (String × α × α) :=
  s.ai.entries.filterMap fun (name, ai) => (s.human.get? name).map fun human => (name, ai, human)

/-- A mean under another spelling of its name counts only where there is none yet. -/
def addMean (s : Stats α) (side : Side) (raw name : String) (x : α) : Stats α :=
  if raw = name || !(s.means side).contains name then s.setMean side name x else s

/-- Entries that are no means, no finite numbers or of no known feature are passed over. -/
def addEntry (s : Stats Float) (entry : String × Json.Value) : Stats Float :=
  let found : Option (Stats Float) := do
    let (side, raw) ← meanKey? entry.1
    let x ← entry.2.number?
    let name ← canonicalName? raw
    if x.isFinite then some (s.addMean side raw name x) else none
  found.getD s

def ofEntries (entries : List (String × Json.Value)) : Stats Float := entries.foldl addEntry empty

end Stats

inductive StatsError where
  | unreadable
  | malformed
  | notAnObject
deriving DecidableEq, Repr

def StatsError.message? : StatsError → Option String
  | .notAnObject => some "Statistics file must be a JSON object"
  | .unreadable | .malformed => none

def Stats.parse (content : String) : Except StatsError (Stats Float) :=
  match Json.read content with
  | none => .error .malformed
  | some (.object entries) => .ok (.ofEntries entries)
  | some _ => .error .notAnObject

end Authorship.Baseline
