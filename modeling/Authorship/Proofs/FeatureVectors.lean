import Authorship.Feature.Vector
import Authorship.Proofs.DoubleOrder
import Authorship.Proofs.Tables

/-
What a feature vector holds. A value is sanitized before it is stored, so whatever was measured,
what is read is finite and within its bound.
-/
namespace Authorship

namespace Feature

structure Bound.Holds (b : Bound Float) (x : Float) : Prop where
  finite : x.isFinite = true
  aboveLow : b.low ≤ x
  belowHigh : x ≤ b.high

structure Bound.Proper (b : Bound Float) : Prop where
  low : b.low.isFinite = true
  high : b.high.isFinite = true
  ordered : b.low ≤ b.high

theorem low_holds {b : Bound Float} (proper : b.Proper) : b.Holds b.low :=
  ⟨proper.low, double_le_refl (finite_is_number proper.low), proper.ordered⟩

theorem high_holds {b : Bound Float} (proper : b.Proper) : b.Holds b.high :=
  ⟨proper.high, proper.ordered, double_le_refl (finite_is_number proper.high)⟩

theorem clamp_holds {b : Bound Float} (proper : b.Proper) {x : Float} (finite : x.isFinite = true) :
    b.Holds (Scalar.clamp b.low b.high x) := by
  have isNumber := finite_is_number finite
  have lowIsNumber := finite_is_number proper.low
  have highIsNumber := finite_is_number proper.high
  unfold Scalar.clamp
  by_cases below : x < b.low
  · simp only [below, ↓reduceIte]
    split
    · exact high_holds proper
    · exact low_holds proper
  · simp only [below, ↓reduceIte]
    split
    · exact high_holds proper
    · rename_i notAbove
      exact ⟨finite, double_le_of_not_lt isNumber lowIsNumber below,
        double_le_of_not_lt highIsNumber isNumber notAbove⟩

theorem zero_is_finite : (Scalar.zero : Float).isFinite = true := by decide +kernel

theorem sanitize_holds {b : Bound Float} (proper : b.Proper) (x : Float) :
    b.Holds (b.sanitize x) := by
  unfold Bound.sanitize
  split
  · exact clamp_holds proper zero_is_finite
  · split
    · split
      · exact high_holds proper
      · exact low_holds proper
    · rename_i finite
      have isFinite : Scalar.isFinite x = true := by simpa using finite
      exact clamp_holds proper isFinite

/- The documented bounds are all proper, and every name stands in the schema once. -/

def limits : List Limit := [.share, .count, .upTo 100, .upTo 171, .upTo noCommentValue]

theorem limits_documented : ∀ spec ∈ schema, spec.limit ∈ limits := by decide +kernel

theorem documented_bounds_proper {spec : Spec} (member : spec ∈ schema) :
    (spec.limit.bound : Bound Float).Proper := by
  have h := limits_documented spec member
  simp only [limits, List.mem_cons, List.not_mem_nil, or_false] at h
  rcases h with h | h | h | h | h <;> rw [h] <;>
    exact ⟨by decide +kernel, by decide +kernel, by decide +kernel⟩

theorem names_distinct : (schema.map (·.name)).Nodup := by decide +kernel

theorem lookup_eq_some_iff (name : String) (spec : Spec) :
    lookup? name = some spec ↔ spec ∈ schema ∧ spec.name = name := by
  have sound {spec : Spec} (found : lookup? name = some spec) : spec ∈ schema ∧ spec.name = name :=
    ⟨List.mem_of_find?_eq_some found, by simpa using List.find?_some found⟩
  refine ⟨sound, ?_⟩
  rintro ⟨member, rfl⟩
  cases found : lookup? spec.name with
  | none => simpa using List.find?_eq_none.mp found spec member
  | some other =>
    obtain ⟨member', same⟩ := sound found
    rw [List.inj_on_of_nodup_map names_distinct member' member same]

theorem is_known_iff (name : String) : isKnown name = true ↔ ∃ spec ∈ schema, spec.name = name := by
  simp only [isKnown, Option.isSome_iff_exists, lookup_eq_some_iff]

end Feature

open Feature

namespace FeatureVector

variable {α : Type}

theorem ext_get {v w : FeatureVector α} (same : ∀ name, v.get? name = w.get? name) : v = w := by
  cases v
  cases w
  exact congrArg FeatureVector.mk (Table.ext_get same)

theorem contains_iff (v : FeatureVector α) (name : String) :
    v.contains name = true ↔ name ∈ v.values.names := v.values.contains_iff name

theorem no_violations_iff (v : FeatureVector α) :
    v.violations = [] ↔ ∀ name, v.contains name = true ↔ isKnown name = true := by
  simp only [violations, List.append_eq_nil_iff, List.map_eq_nil_iff, List.filter_eq_nil_iff,
    Bool.not_eq_true', Bool.not_eq_false]
  constructor
  · rintro ⟨known, present⟩ name
    refine ⟨fun stored => known name ((contains_iff v name).mp stored), fun isKnown => ?_⟩
    obtain ⟨spec, member, rfl⟩ := (is_known_iff name).mp isKnown
    exact present spec.name (List.mem_map_of_mem member)
  · intro complete
    refine ⟨fun name stored => (complete name).mp ((contains_iff v name).mpr stored), ?_⟩
    intro name listed
    obtain ⟨spec, member, rfl⟩ := List.mem_map.mp listed
    exact (complete spec.name).mpr ((is_known_iff spec.name).mpr ⟨spec, member, rfl⟩)

variable [Scalar α]

def sanitizedEntry (entry : String × α) : String × α := (entry.1, sanitizeNamed entry.1 entry.2)

theorem values_of_list (entries : List (String × α)) :
    (ofList entries).values = Table.ofList (entries.map sanitizedEntry) := by
  have folded (v : FeatureVector α) :
      (entries.foldl (fun v entry => v.insert entry.1 entry.2) v).values =
        (entries.map sanitizedEntry).foldl (fun t entry => t.insert entry.1 entry.2) v.values := by
    induction entries generalizing v with
    | nil => rfl
    | cons entry rest ih => exact ih _
  exact folded empty

theorem get_of_list (entries : List (String × α)) (name : String) :
    (ofList entries).get? name = (entries.reverse.lookup name).map (sanitizeNamed name) := by
  rw [get?, values_of_list, Table.get_of_list, ← List.map_reverse]
  induction entries.reverse with
  | nil => rfl
  | cons entry rest ih =>
    obtain ⟨n, x⟩ := entry
    rw [List.map_cons, sanitizedEntry, lookup_of_cons, lookup_of_cons, ih]
    by_cases same : name = n <;> simp [same]

theorem contains_of_list (entries : List (String × α)) (name : String) :
    (ofList entries).contains name = true ↔ name ∈ entries.map (·.1) := by
  rw [contains, Table.contains, ← get?, get_of_list, Option.isSome_map, List.lookup_isSome_iff]
  simp only [List.mem_reverse, beq_iff_eq, List.mem_map, eq_comm (a := name)]

def restrict (v : FeatureVector α) (p : String → Prop) [DecidablePred p] : FeatureVector α :=
  ⟨v.values.restrict p⟩

theorem restrict_of_list (entries : List (String × α)) (p : String → Prop) [DecidablePred p] :
    ofList (entries.filter (p ·.1)) = (ofList entries).restrict p := by
  refine ext_get fun name => ?_
  have restricted : ((ofList entries).restrict p).get? name =
      if p name then (ofList entries).get? name else none := Table.get_restrict _ p name
  rw [restricted, get_of_list, get_of_list, ← List.filter_reverse, Table.lookup_filter]
  split <;> rfl

theorem known_value_holds (entries : List (String × Float)) {name : String} {x : Float}
    {spec : Spec} (stored : (ofList entries).get? name = some x) (known : lookup? name = some spec) :
    spec.limit.bound.Holds x := by
  rw [get_of_list] at stored
  obtain ⟨raw, -, rfl⟩ := Option.map_eq_some_iff.mp stored
  simp only [sanitizeNamed, known]
  exact sanitize_holds (documented_bounds_proper ((lookup_eq_some_iff name spec).mp known).1) raw

end FeatureVector

end Authorship
