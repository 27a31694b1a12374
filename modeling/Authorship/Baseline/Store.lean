import Authorship.Baseline.Profile

/- The profile in use, which a reload replaces only if it succeeds. -/
namespace Authorship.Baseline

inductive Fallback where
  | empty
  | reference
deriving DecidableEq, Repr

def Fallback.key : Fallback → String
  | .empty => "empty"
  | .reference => "reference"

def Fallback.ofKey? : String → Option Fallback
  | "empty" => some .empty
  | "reference" => some .reference
  | _ => none

def Fallback.profile {α : Type} [Scalar α] : Fallback → Profile α
  | .empty => .empty
  | .reference => .reference

def loadProfile (content : Option String) (topCount : Nat) : Except StatsError (Profile Float) :=
  match content with
  | none => .error .unreadable
  | some text => (Stats.parse text).map (Profile.ofStats · topCount)

def loadProfileOr (fallback : Fallback) (content : Option String) (topCount : Nat) :
    Profile Float :=
  match loadProfile content topCount with
  | .ok profile => profile
  | .error _ => fallback.profile

structure Store where
  current : Profile Float
  topCount : Nat

namespace Store

def default : Store := ⟨.empty, defaultTopCount⟩

def ofContent (content : Option String) (fallback : Fallback) (topCount : Nat) : Store :=
  ⟨loadProfileOr fallback content topCount, topCount⟩

def swap (s : Store) (profile : Profile Float) : Profile Float × Store :=
  (s.current, { s with current := profile })

def reload (s : Store) (content : Option String) :
    Except StatsError (Profile Float) × Store :=
  match loadProfile content s.topCount with
  | .ok profile => (.ok profile, { s with current := profile })
  | .error e => (.error e, s)

end Store

end Authorship.Baseline
