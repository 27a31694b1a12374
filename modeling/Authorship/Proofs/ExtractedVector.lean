import Authorship.Analysis.Extraction
import Authorship.Proofs.FeatureVectors

/-
What is in the vector of a source file. Every family measures under its own namespace and under
names that depend on nothing, so leaving families out takes their namespaces away and changes
nothing else.
-/
namespace Authorship

open Analysis Feature

namespace Analysis

variable {α : Type}

def Settings.complete (c : Settings α) : Settings α := { c with disabled := [] }

def Settings.Measures (c : Settings α) (name : String) : Prop :=
  namespaceOf name = "basic" ∨
    ∃ family ∈ Family.all, family ∉ c.disabled ∧ namespaceOf name = family.featureNamespace

instance (c : Settings α) : DecidablePred c.Measures := fun _ =>
  inferInstanceAs (Decidable (_ ∨ ∃ family ∈ Family.all, _))

theorem namespace_of_joined {group : String} (undotted : '.' ∉ group.toList) (name : String) :
    namespaceOf (joinName group name) = group := by
  have undotted' : ∀ c ∈ group.toList, (c != '.') = true := by
    intro c member
    simpa using fun dot : c = '.' => undotted (dot ▸ member)
  rw [namespaceOf, joinName, String.toList_append, String.toList_append, List.append_assoc,
    List.takeWhile_append_of_pos undotted']
  simp

theorem namespaces_undotted (family : Family) : '.' ∉ family.featureNamespace.toList := by
  cases family <;> decide

theorem namespaces_injective {family other : Family}
    (same : family.featureNamespace = other.featureNamespace) : family = other := by
  revert same
  cases family <;> cases other <;> decide

theorem namespace_not_basic (family : Family) : family.featureNamespace ≠ "basic" := by
  cases family <;> decide

theorem measures_basic (c : Settings α) (name : String) : c.Measures (joinName "basic" name) :=
  Or.inl (namespace_of_joined (by decide) name)

theorem measures_family (c : Settings α) (family : Family) (name : String) :
    c.Measures (joinName family.featureNamespace name) ↔ family ∉ c.disabled := by
  unfold Settings.Measures
  rw [namespace_of_joined (namespaces_undotted family)]
  constructor
  · rintro (basic | ⟨other, -, enabled, same⟩)
    · exact absurd basic (namespace_not_basic family)
    · rwa [namespaces_injective same]
  · intro enabled
    exact Or.inr ⟨family, by cases family <;> decide, enabled, rfl⟩

theorem filter_group {group : String} (p : String → Prop) [DecidablePred p] (q : Prop) [Decidable q]
    (ms : Measurements α) (same : ∀ name, p (joinName group name) ↔ q) :
    (inGroup group ms).filter (p ·.1) = if q then inGroup group ms else [] := by
  by_cases kept : q <;> simp [inGroup, List.filter_map, Function.comp_def, same, kept]

variable [Analytic α]

theorem family_measured (c : Settings α) (s : Source.Prepared) {family : Family}
    (enabled : family ∉ c.disabled) {name : String} {x : α}
    (measured : (name, x) ∈ family.measure c s) :
    (joinName family.featureNamespace name, x) ∈ measurements c s := by
  have listed : family ∈ Family.all := by cases family <;> decide
  have used : family ∈ c.enabled := List.mem_filter.mpr ⟨listed, by simpa using enabled⟩
  have grouped : (joinName family.featureNamespace name, x) ∈
      inGroup family.featureNamespace (family.measure c s) := List.mem_map_of_mem measured
  exact List.mem_append_right _ (List.mem_flatMap.mpr ⟨family, used, grouped⟩)

theorem filter_families (c : Settings α) (s : Source.Prepared) (families : List Family) :
    (families.flatMap fun family => inGroup family.featureNamespace (family.measure c s)).filter
        (c.Measures ·.1) =
      (families.filter (!c.disabled.contains ·)).flatMap fun family =>
        inGroup family.featureNamespace (family.measure c s) := by
  induction families with
  | nil => rfl
  | cons family rest ih =>
    rw [List.flatMap_cons, List.filter_append, ih,
      filter_group c.Measures _ _ (measures_family c family)]
    by_cases disabled : family ∈ c.disabled <;> simp [disabled]

/-- What is measured with families left out is what is measured without that, as far as the names
are still measured. -/
theorem measurements_restricted (c : Settings α) (s : Source.Prepared) :
    measurements c s = (measurements c.complete s).filter (c.Measures ·.1) := by
  have complete : measurements c.complete s = inGroup "basic" (basicMeasurements s) ++
      Family.all.flatMap fun family => inGroup family.featureNamespace (family.measure c s) := rfl
  rw [complete, List.filter_append, filter_families,
    filter_group c.Measures True _ fun name => iff_true_intro (measures_basic c name)]
  rfl

theorem complete_measures (c : Settings α) (s : Source.Prepared) {entry : String × α}
    (measured : entry ∈ measurements c.complete s) : c.complete.Measures entry.1 := by
  have filtered : measurements c.complete s =
      (measurements c.complete s).filter (c.complete.Measures ·.1) :=
    measurements_restricted c.complete s
  rw [filtered] at measured
  simpa using (List.mem_filter.mp measured).2

theorem measured_names (c : Settings α) (s : Source.Prepared) :
    (measurements c.complete s).map (·.1) = schema.map (·.name) := by rfl

theorem known_iff_measured (c : Settings α) (s : Source.Prepared) (name : String) :
    (∃ spec ∈ schema, spec.name = name) ↔ ∃ entry ∈ measurements c.complete s, entry.1 = name := by
  rw [← List.mem_map, ← measured_names c s, List.mem_map]

theorem known_is_joined {name : String} (known : ∃ spec ∈ schema, spec.name = name) :
    ∃ group ∈ namespaces, ∃ rest, name = joinName group rest := by
  have inNamespace {group : String} {ms : Measurements Float} {entry : String × Float}
      (member : entry ∈ inGroup group ms) : ∃ rest, entry.1 = joinName group rest := by
    obtain ⟨inner, -, rfl⟩ := List.mem_map.mp member
    exact ⟨inner.1, rfl⟩
  obtain ⟨entry, measured, rfl⟩ :=
    (known_iff_measured (Settings.default : Settings Float) (Source.prepare "" "") name).mp known
  rcases List.mem_append.mp measured with basic | family
  · exact ⟨"basic", by decide, inNamespace basic⟩
  · obtain ⟨family, -, inside⟩ := List.mem_flatMap.mp family
    exact ⟨family.featureNamespace, by cases family <;> decide, inNamespace inside⟩

end Analysis

theorem extracted_names {α : Type} [Analytic α] (c : Analysis.Settings α) (s : Source.Prepared)
    (name : String) : (extractPrepared c s).contains name = true ↔
      (∃ spec ∈ schema, spec.name = name) ∧ c.Measures name := by
  rw [extractPrepared, FeatureVector.contains_of_list, measurements_restricted,
    known_iff_measured c s]
  simp only [List.mem_map, List.mem_filter, decide_eq_true_eq]
  constructor
  · rintro ⟨entry, ⟨member, measured⟩, rfl⟩
    exact ⟨⟨entry, member, rfl⟩, measured⟩
  · rintro ⟨⟨entry, member, rfl⟩, measured⟩
    exact ⟨entry, ⟨member, measured⟩, rfl⟩

theorem names_measured_once {α : Type} [Analytic α] (c : Analysis.Settings α)
    (s : Source.Prepared) : ((measurements c s).map (·.1)).Nodup := by
  have distinct := names_distinct
  rw [← measured_names c s] at distinct
  rw [measurements_restricted]
  exact distinct.sublist (List.filter_sublist.map _)

theorem extracted_value {α : Type} [Analytic α] (c : Analysis.Settings α) (s : Source.Prepared)
    {name : String} {x : α} (measured : (name, x) ∈ measurements c s) :
    (extractPrepared c s).get? name = some (sanitizeNamed name x) := by
  have distinct : ((measurements c s).reverse.map (·.1)).Nodup := by
    rw [List.map_reverse, List.nodup_reverse]
    exact names_measured_once c s
  rw [extractPrepared, FeatureVector.get_of_list,
    lookup_of_distinct distinct (List.mem_reverse.mpr measured)]
  rfl

theorem extracted_in_family {α : Type} [Analytic α] (c : Analysis.Settings α)
    (text filename : String) {family : Family} (enabled : family ∉ c.disabled) {name : String}
    {x : α} (measured : (name, x) ∈ family.measure c (Source.prepare text filename)) :
    (extract c text filename).get? (joinName family.featureNamespace name) =
      some (sanitizeNamed (joinName family.featureNamespace name) x) :=
  extracted_value c _ (family_measured c _ enabled measured)

theorem Analysis.unasked_group {α : Type} {group : String} {p : String → Prop} [DecidablePred p]
    (other : ∀ name, ¬ p (joinName group name)) (ms : Measurements α) :
    (inGroup group ms).filter (p ·.1) = [] :=
  filter_group p False ms fun name => iff_false_intro (other name)

theorem agreeing_values {α : Type} [Analytic α] (c : Analysis.Settings α) {s s' : Source.Prepared}
    (p : String → Prop) [DecidablePred p] (basic : ∀ name, ¬ p (joinName "basic" name))
    (families : ∀ family : Family, (∀ name, ¬ p (joinName family.featureNamespace name)) ∨
      (inGroup family.featureNamespace (family.measure c s)).filter (p ·.1) =
        (inGroup family.featureNamespace (family.measure c s')).filter (p ·.1))
    {name : String} (asked : p name) :
    (extractPrepared c s).get? name = (extractPrepared c s').get? name := by
  have same (family : Family) :
      (inGroup family.featureNamespace (family.measure c s)).filter (p ·.1) =
        (inGroup family.featureNamespace (family.measure c s')).filter (p ·.1) := by
    rcases families family with other | same
    · rw [unasked_group other, unasked_group other]
    · exact same
  have measured : (measurements c s).filter (p ·.1) = (measurements c s').filter (p ·.1) := by
    simp only [measurements, List.filter_append, List.filter_flatMap, unasked_group basic, same]
  have restricted : (extractPrepared c s).restrict p = (extractPrepared c s').restrict p := by
    rw [extractPrepared, extractPrepared, ← FeatureVector.restrict_of_list, measured,
      FeatureVector.restrict_of_list]
  have looked (v : FeatureVector α) : (v.restrict p).get? name = v.get? name :=
    (Table.get_restrict v.values p name).trans (if_pos asked)
  rw [← looked, restricted, looked]

/-- Whatever the text, the settings and the weights are, the vector has the features that are
measured and no others, all of them finite and within their bounds, and it is what is left of the
vector with nothing left out, which lacks no feature and has none that is unknown. -/
theorem extraction_complete_and_bounded (c : Analysis.Settings Float) (text filename : String) :
    (∀ name, (extract c text filename).contains name = true ↔
      (∃ spec ∈ schema, spec.name = name) ∧ c.Measures name) ∧
    (∀ name x, (extract c text filename).get? name = some x →
      ∃ spec ∈ schema, spec.name = name ∧ spec.limit.bound.Holds x) ∧
    extract c text filename = (extract c.complete text filename).restrict c.Measures ∧
    (extract c.complete text filename).violations = [] := by
  have names := extracted_names c (Source.prepare text filename)
  refine ⟨names, ?_, ?_, ?_⟩
  · intro name x stored
    have present : (extract c text filename).contains name = true := by
      rw [FeatureVector.contains, Table.contains, ← FeatureVector.get?, stored]
      rfl
    obtain ⟨spec, member, same⟩ := ((names name).mp present).1
    exact ⟨spec, member, same, FeatureVector.known_value_holds _ stored
      ((lookup_eq_some_iff name spec).mpr ⟨member, same⟩)⟩
  · rw [extract, extractPrepared, measurements_restricted, FeatureVector.restrict_of_list]
    rfl
  · refine (FeatureVector.no_violations_iff _).mpr fun name => ?_
    rw [extract, extracted_names, is_known_iff]
    refine ⟨fun h => h.1, fun known => ⟨known, ?_⟩⟩
    obtain ⟨entry, measured, rfl⟩ :=
      (known_iff_measured c (Source.prepare text filename) name).mp known
    exact complete_measures c _ measured

end Authorship
