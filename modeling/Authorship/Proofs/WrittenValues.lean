import Authorship.Proofs.FeatureVectors

/-
What a vector holds after any number of writes. Sanitizing twice is the same as sanitizing once, so
a value that was stored goes into another vector as it is, and putting one vector on top of another
is the union of the two, in which the upper one counts.
-/
namespace Authorship

namespace Feature

/- What may be stored under a name. A name outside the schema has no bound. -/
structure Admits (name : String) (x : Float) : Prop where
  finite : x.isFinite = true
  bounded : ∀ spec ∈ schema, spec.name = name → spec.limit.bound.Holds x

theorem admits_known {name : String} {spec : Spec} (known : lookup? name = some spec) (x : Float) :
    Admits name x ↔ spec.limit.bound.Holds x := by
  constructor
  · intro admits
    obtain ⟨member, named⟩ := (lookup_eq_some_iff name spec).mp known
    exact admits.bounded spec member named
  · intro holds
    refine ⟨holds.finite, fun other member named => ?_⟩
    have found := (lookup_eq_some_iff name other).mpr ⟨member, named⟩
    rw [known] at found
    exact Option.some.inj found ▸ holds

theorem admits_unknown {name : String} (unknown : lookup? name = none) (x : Float) :
    Admits name x ↔ x.isFinite = true := by
  refine ⟨fun admits => admits.finite, fun finite => ⟨finite, fun spec member named => ?_⟩⟩
  rw [(lookup_eq_some_iff name spec).mpr ⟨member, named⟩] at unknown
  contradiction

theorem largest_count_finite : (Scalar.count countCeiling : Float).isFinite = true := by
  decide +kernel

theorem least_count_finite : (-Scalar.count countCeiling : Float).isFinite = true := by
  decide +kernel

theorem sanitized_admits (name : String) (x : Float) : Admits name (sanitizeNamed name x) := by
  cases known : lookup? name with
  | some spec =>
    have proper := documented_bounds_proper ((lookup_eq_some_iff name spec).mp known).1
    simp only [admits_known known, sanitizeNamed, known]
    exact sanitize_holds proper x
  | none =>
    simp only [admits_unknown known, sanitizeNamed, known]
    split
    · assumption
    · split
      · exact zero_is_finite
      · split
        · exact largest_count_finite
        · exact least_count_finite

/- What is admitted needs no sanitizing. -/

theorem clamp_of_holds {b : Bound Float} {x : Float} (holds : b.Holds x) :
    Scalar.clamp b.low b.high x = x := by
  have notBelow : ¬ x < b.low := fun below => not_le_of_double_lt below holds.aboveLow
  have notAbove : ¬ b.high < x := fun above => not_le_of_double_lt above holds.belowHigh
  simp only [Scalar.clamp, if_neg notBelow, if_neg notAbove]

theorem sanitize_of_holds {b : Bound Float} {x : Float} (holds : b.Holds x) : b.sanitize x = x := by
  have isNumber : Scalar.isNaN x = false := finite_is_number holds.finite
  have finite : Scalar.isFinite x = true := holds.finite
  rw [Bound.sanitize, isNumber, finite, if_neg (by decide), if_neg (by decide),
    clamp_of_holds holds]

theorem sanitize_of_admits {name : String} {x : Float} (admits : Admits name x) :
    sanitizeNamed name x = x := by
  cases known : lookup? name with
  | some spec =>
    simp only [sanitizeNamed, known]
    exact sanitize_of_holds ((admits_known known x).mp admits)
  | none =>
    simp only [sanitizeNamed, known]
    exact if_pos admits.finite

theorem sanitized_again (name : String) (x : Float) :
    sanitizeNamed name (sanitizeNamed name x) = sanitizeNamed name x :=
  sanitize_of_admits (sanitized_admits name x)

end Feature

namespace FeatureVector

open Feature

section

variable {α : Type} [Scalar α]

theorem get_insert (v : FeatureVector α) (name other : String) (x : α) :
    (v.insert name x).get? other =
      if other = name then some (sanitizeNamed name x) else v.get? other :=
  Table.get_insert v.values name other _

theorem get_fold_insert {entries : List (String × α)} (sorted : Ascending entries)
    (v : FeatureVector α) (name : String) :
    (entries.foldl (fun v entry => v.insert entry.1 entry.2) v).get? name =
      ((entries.lookup name).map (sanitizeNamed name)).or (v.get? name) := by
  induction entries generalizing v with
  | nil => rfl
  | cons entry rest ih =>
    obtain ⟨n, x⟩ := entry
    rw [List.foldl_cons, ih (List.pairwise_cons.mp sorted).2, get_insert, lookup_of_cons]
    by_cases same : name = n
    · subst same
      simp [first_name_once sorted]
    · simp [same]

theorem get_extend (v w : FeatureVector α) (name : String) :
    (v.extend w).get? name = ((w.get? name).map (sanitizeNamed name)).or (v.get? name) :=
  get_fold_insert w.values.ascending v name

end

/-- A write to a vector. The vector that is put on top may itself be any, such as one that was read
from a file. -/
inductive Write where
  | insert (name : String) (x : Float)
  | extend (other : FeatureVector Float)

namespace Write

def apply (v : FeatureVector Float) : Write → FeatureVector Float
  | .insert name x => v.insert name x
  | .extend other => v.extend other

def given? (name : String) : Write → Option Float
  | .insert n x => if name = n then some x else none
  | .extend other => other.get? name

theorem get_apply (v : FeatureVector Float) (w : Write) (name : String) :
    (w.apply v).get? name = ((w.given? name).map (sanitizeNamed name)).or (v.get? name) := by
  cases w with
  | insert n x =>
    rw [apply, get_insert, given?]
    by_cases same : name = n
    · simp [same]
    · simp [same]
  | extend other => exact get_extend v other name

end Write

def written (writes : List Write) : FeatureVector Float := writes.foldl Write.apply empty

def lastGiven? (name : String) (writes : List Write) : Option Float :=
  writes.reverse.findSome? (·.given? name)

theorem get_written (writes : List Write) (name : String) :
    (written writes).get? name = (lastGiven? name writes).map (sanitizeNamed name) := by
  induction writes using List.reverseRecOn with
  | nil => rfl
  | append_singleton earlier last ih =>
    rw [written, List.foldl_concat, Write.get_apply, ← written, ih, lastGiven?, lastGiven?,
      List.reverse_concat, List.findSome?_cons]
    cases last.given? name <;> rfl

theorem written_admits {writes : List Write} {name : String} {x : Float}
    (stored : (written writes).get? name = some x) : Admits name x := by
  rw [get_written] at stored
  obtain ⟨raw, -, rfl⟩ := Option.map_eq_some_iff.mp stored
  exact sanitized_admits name raw

theorem unwritten_name {writes more : List Write} {name : String}
    (elsewhere : ∀ w ∈ more, w.given? name = none) :
    (written (writes ++ more)).get? name = (written writes).get? name := by
  have nothing : more.reverse.findSome? (·.given? name) = none := by
    rw [List.findSome?_eq_none_iff]
    exact fun w member => elsewhere w (List.mem_reverse.mp member)
  rw [get_written, get_written, lastGiven?, lastGiven?, List.reverse_append,
    List.findSome?_append, nothing, Option.none_or]

/- One vector on top of another. -/

def Settled (v : FeatureVector Float) : Prop :=
  ∀ name x, v.get? name = some x → Admits name x

theorem settled_unsanitized {w : FeatureVector Float} (settled : w.Settled) (name : String) :
    (w.get? name).map (sanitizeNamed name) = w.get? name := by
  cases found : w.get? name with
  | none => rfl
  | some x => exact congrArg some (sanitize_of_admits (settled name x found))

theorem extend_is_union (v : FeatureVector Float) {w : FeatureVector Float} (settled : w.Settled)
    (name : String) : (v.extend w).get? name = (w.get? name).or (v.get? name) := by
  rw [get_extend, settled_unsanitized settled]

/- That sanitizing twice is sanitizing once is what the middle vector needs. -/
theorem extend_assoc (u v w : FeatureVector Float) :
    (u.extend v).extend w = u.extend (v.extend w) := by
  apply ext_get
  intro name
  simp only [get_extend]
  cases w.get? name with
  | none => simp only [Option.map_none, Option.none_or]
  | some x => simp only [Option.map_some, Option.some_or, sanitized_again]

theorem extend_self {v : FeatureVector Float} (settled : v.Settled) : v.extend v = v := by
  apply ext_get
  intro name
  rw [extend_is_union v settled]
  cases v.get? name <;> rfl

/-- However a vector is written, with whatever numbers and from whatever vectors, its values are
finite and within their bounds, and a name has the value that was last written to it. Writes to
other names do not matter. Of two such vectors the second on top of the first is their union, in
which the second counts; it makes no difference in which order three of them are joined, and nothing
comes of joining one with itself. -/
theorem writes_settle_and_unite :
    (∀ writes, (written writes).Settled ∧
      ∀ name, (written writes).get? name = (lastGiven? name writes).map (sanitizeNamed name)) ∧
    (∀ writes more name, (∀ w ∈ more, w.given? name = none) →
      (written (writes ++ more)).get? name = (written writes).get? name) ∧
    (∀ name x, sanitizeNamed name (sanitizeNamed name x) = sanitizeNamed name (x : Float)) ∧
    ∀ first second third,
      let u := written first
      let v := written second
      let w := written third
      (∀ name, (u.extend v).get? name = (v.get? name).or (u.get? name)) ∧
        (u.extend v).extend w = u.extend (v.extend w) ∧ u.extend u = u := by
  have settled (writes : List Write) : (written writes).Settled := fun _ _ => written_admits
  refine ⟨fun writes => ⟨settled writes, get_written writes⟩, ?_, sanitized_again, ?_⟩
  · intro writes more name elsewhere
    exact unwritten_name elsewhere
  · intro first second third u v w
    exact ⟨extend_is_union u (settled second), extend_assoc u v w, extend_self (settled first)⟩

def notANumber : Float := 0 / 0

def endless : Float := 1 / 0

theorem infinity_outlives_other_writes :
    let writes : List Write := [.insert "custom.signal" 2.5, .insert "custom.signal" (-endless)]
    let more : List Write := [.insert "basic.loc" notANumber,
      .extend (written [.insert "naming.generic_var_ratio" 1.7])]
    (∀ w ∈ more, w.given? "custom.signal" = none) ∧
      (written (writes ++ more)).get? "custom.signal" = (written writes).get? "custom.signal" ∧
      (written (writes ++ more)).entries = [("basic.loc", 0), ("custom.signal", -1e12),
        ("naming.generic_var_ratio", 1)] := by
  intro writes more
  have elsewhere : ∀ w ∈ more, w.given? "custom.signal" = none := by
    simp only [more, List.forall_mem_cons, List.not_mem_nil, false_implies, implies_true, and_true]
    exact ⟨by decide +kernel, by decide +kernel⟩
  have kept := writes_settle_and_unite.2.1 writes more "custom.signal" elsewhere
  exact ⟨elsewhere, kept, by decide +kernel⟩

end FeatureVector

end Authorship
