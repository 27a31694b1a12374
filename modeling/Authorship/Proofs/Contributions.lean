import Authorship.Proofs.CriticalVotes
import Authorship.Proofs.FeatureSpellings
import Authorship.Proofs.ReadMeans
import Authorship.Proofs.RuleDirections

/-
What a score is made of. The contributions are stored under the keys of the terms, and a key that
came twice would drop a term which the score counts. No key does: the rules have keys of their own,
the features of a profile come from a table, and a feature that the schema has is not called
perfection, simplicity or chaos.
-/
namespace Authorship

namespace Baseline

open Feature Scalar

variable {α : Type}

section

variable [Scalar α]

/- Finite means of features that the schema has. -/
def DocumentedMeans (t : Table α) : Prop :=
  ∀ name x, t.get? name = some x → isKnown name = true ∧ isFinite x = true

def Stats.Documented (s : Stats α) : Prop := ∀ side, DocumentedMeans (s.means side)

theorem documented_insert {t : Table α} (documented : DocumentedMeans t) {name : String}
    (known : isKnown name = true) {x : α} (finite : isFinite x = true) :
    DocumentedMeans (t.insert name x) := by
  intro other y found
  rw [Table.get_insert] at found
  split at found
  · rename_i same
    exact ⟨same ▸ known, Option.some.inj found ▸ finite⟩
  · exact documented other y found

namespace Stats

theorem empty_documented : (empty : Stats α).Documented := by
  intro side name x found
  cases side <;> simp [means, empty] at found

theorem set_mean_documented {s : Stats α} (documented : s.Documented) (side : Side) {name : String}
    (known : isKnown name = true) {x : α} (finite : isFinite x = true) :
    (s.setMean side name x).Documented := by
  intro other
  cases side <;> cases other
  · exact documented_insert (documented .ai) known finite
  · exact documented .human
  · exact documented .ai
  · exact documented_insert (documented .human) known finite

theorem fold_documented {β : Type} {step : Stats α → β → Stats α}
    (keeps : ∀ s x, s.Documented → (step s x).Documented) (xs : List β) (s : Stats α)
    (documented : s.Documented) : (xs.foldl step s).Documented := by
  induction xs generalizing s with
  | nil => exact documented
  | cons x rest ih => exact ih (step s x) (keeps s x documented)

end Stats

end

namespace Stats

theorem add_entry_cases (s : Stats Float) (entry : String × Json.Value) :
    s.addEntry entry = s ∨
      ∃ side raw name x, canonicalName? raw = some name ∧ x.isFinite = true ∧
        s.addEntry entry = s.setMean side name x := by
  rw [add_entry_eq]
  split
  · rename_i side raw found
    split
    · rename_i name x meant given
      have finite : x.isFinite = true := (Option.filter_eq_some_iff.mp given).2
      unfold addMean
      split
      · exact Or.inr ⟨side, raw, name, x, meant, finite, rfl⟩
      · exact Or.inl rfl
    · exact Or.inl rfl
  · exact Or.inl rfl

theorem add_entry_documented {s : Stats Float} (documented : s.Documented)
    (entry : String × Json.Value) : (s.addEntry entry).Documented := by
  rcases add_entry_cases s entry with same | ⟨side, raw, name, x, meant, finite, added⟩
  · rw [same]
    exact documented
  · rw [added]
    exact set_mean_documented documented side (meant_of_canonical meant).1 finite

theorem entries_documented (entries : List (String × Json.Value)) :
    (ofEntries entries).Documented :=
  fold_documented (fun _ entry documented => add_entry_documented documented entry) entries empty
    empty_documented

theorem parsed_documented {content : String} {stats : Stats Float}
    (parsed : Stats.parse content = .ok stats) : stats.Documented := by
  rw [Stats.parse] at parsed
  split at parsed
  · contradiction
  · rw [← Except.ok.inj parsed]
    exact entries_documented _
  · contradiction

end Stats

namespace Profile

variable [Scalar α]

/- The profiles that a program comes by. -/
def Documented (p : Profile α) : Prop :=
  ∃ stats topCount, stats.Documented ∧ p = ofStats stats topCount

theorem of_means_documented (means : List (String × α × α)) (topCount : Nat) :
    (ofMeans means topCount).Documented := by
  refine ⟨_, topCount, ?_, rfl⟩
  apply Stats.fold_documented ?_ means .empty Stats.empty_documented
  rintro s ⟨raw, ai, human⟩ documented
  simp only
  split
  · exact documented
  · rename_i name meant
    have known := (meant_of_canonical meant).1
    split
    · rename_i finite
      rw [Bool.and_eq_true] at finite
      have first := Stats.set_mean_documented documented .ai known finite.1
      exact Stats.set_mean_documented first .human known finite.2
    · exact documented

theorem documented_names_distinct {p : Profile α} (documented : p.Documented) :
    (p.critical.map (·.name)).Nodup := by
  obtain ⟨stats, topCount, -, rfl⟩ := documented
  exact critical_names_distinct stats topCount

theorem documented_weights_positive {p : Profile Rat} (documented : p.Documented) :
    ∀ c ∈ p.critical, 0 < c.weight := by
  obtain ⟨stats, topCount, -, rfl⟩ := documented
  exact critical_weights_positive stats topCount

theorem documented_names_known {p : Profile α} (documented : p.Documented)
    {c : CriticalFeature α} (member : c ∈ p.critical) : isKnown c.name = true := by
  obtain ⟨stats, topCount, known, rfl⟩ := documented
  exact (known .ai c.name c.aiMean (critical_is_ranked member).aiMean).1

end Profile

end Baseline

namespace Detection

open Baseline Feature Scalar

/- Each term has an entry of its own, there are no others, and together they are the score. -/
structure Explains (a : Assessment Rat) (terms : List (Contribution Rat)) : Prop where
  entries : a.contributions.entries.Perm (terms.map fun term => (term.key, term.value))
  score : a.score = min 1 (max 0 (1 / 2 + (a.contributions.entries.map (·.2)).sum))

theorem assembled_explains {terms : List (Contribution Rat)}
    (distinct : (terms.map (·.key)).Nodup) (thresholds : Thresholds Rat) (limit : Nat)
    (method : Method) : Explains (assemble terms thresholds limit method) terms := by
  have entries : (assemble terms thresholds limit method).contributions.entries.Perm
      (terms.map fun term => (term.key, term.value)) := by
    apply Table.entries_of_distinct
    rw [List.map_map]
    exact distinct
  refine ⟨entries, ?_⟩
  have sums := (entries.map (·.2)).sum_eq
  rw [List.map_map] at sums
  rw [sums]
  exact (exact_score (rawScore terms)).trans (by rw [exact_raw_score]; rfl)

theorem rule_keys_distinct : (rules.map (·.id)).Nodup := by decide +kernel

/- The critical features that a vector has, none if there is no profile. -/
def presentNames (features : FeatureVector Rat) (profile : Option (Profile Rat)) : List String :=
  ((profile.map (·.critical)).getD []).map (·.name) |>.filter (features.contains ·)

def secondaryKeys : List String := ["perfection", "simplicity", "chaos"]

theorem secondary_keys_unknown : ∀ key ∈ secondaryKeys, isKnown key = false := by decide +kernel

theorem baseline_keys (d : BaselineDetector Rat) (features : FeatureVector Rat)
    {profile : Option (Profile Rat)} (documented : ∀ p ∈ profile, p.Documented) :
    (d.terms features profile).map (·.key) = presentNames features profile ++ secondaryKeys := by
  rw [BaselineDetector.terms, List.map_append]
  apply congrArg (· ++ secondaryKeys)
  cases profile with
  | none => rfl
  | some p =>
    exact d.critical_keys features (Profile.documented_weights_positive (documented p rfl))

theorem baseline_keys_distinct (features : FeatureVector Rat) {profile : Option (Profile Rat)}
    (documented : ∀ p ∈ profile, p.Documented) :
    (presentNames features profile ++ secondaryKeys).Nodup := by
  have secondary : secondaryKeys.Nodup := by decide
  cases profile with
  | none => exact secondary
  | some p =>
    refine List.Nodup.append ?_ secondary ?_
    · exact (Profile.documented_names_distinct (documented p rfl)).filter _
    · intro name critical collides
      obtain ⟨c, member, rfl⟩ := List.mem_map.mp (List.mem_filter.mp critical).1
      have known := Profile.documented_names_known (documented p rfl) member
      rw [secondary_keys_unknown _ collides] at known
      contradiction

/-- Both ways of scoring store every term they make: one for each rule, or one for each critical
feature that the vector has and one for each of the three other signals. The profile of a
statistics file names features of the schema only, and so does one that is made of means. -/
theorem contributions_lose_no_term (features : FeatureVector Rat) (usable : Usable features) :
    (∀ content stats topCount, Stats.parse content = .ok stats →
      (Profile.ofStats stats topCount).Documented) ∧
    (∀ means topCount, (Profile.ofMeans means topCount : Profile Rat).Documented) ∧
    (∀ d : HeuristicDetector Rat,
      (HeuristicDetector.terms features).map (·.key) = rules.map (·.id) ∧
        Explains (d.detect features) (HeuristicDetector.terms features)) ∧
    ∀ (d : BaselineDetector Rat) (profile : Option (Profile Rat)),
      (∀ p ∈ profile, p.Documented) →
        (d.terms features profile).map (·.key) = presentNames features profile ++ secondaryKeys ∧
          Explains (d.detect features profile) (d.terms features profile) := by
  refine ⟨?_, Profile.of_means_documented, ?_, ?_⟩
  · intro content stats topCount parsed
    exact ⟨stats, topCount, Stats.parsed_documented parsed, rfl⟩
  · intro d
    have keys : (HeuristicDetector.terms features).map (·.key) = rules.map (·.id) :=
      List.map_map
    refine ⟨keys, ?_⟩
    rw [d.detect_usable usable]
    exact assembled_explains (keys ▸ rule_keys_distinct) _ _ _
  · intro d profile documented
    have keys := baseline_keys d features documented
    refine ⟨keys, ?_⟩
    rw [d.detect_usable usable]
    exact assembled_explains (keys ▸ baseline_keys_distinct features documented) _ _ _

def threeFeatures : FeatureVector Rat :=
  .ofList [("basic.loc", 25), ("basic.comment_ratio", 0.03), ("naming.generic_var_ratio", 0.3)]

theorem reference_terms_all_stored :
    Usable threeFeatures ∧ (Profile.reference : Profile Rat).Documented ∧
      let d : BaselineDetector Rat := .default
      let a := d.detect threeFeatures (some .reference)
      Explains a (d.terms threeFeatures (some .reference)) ∧
        a.contributions.names = ["basic.comment_ratio", "chaos", "naming.generic_var_ratio",
          "perfection", "simplicity"] := by
  have usable : Usable threeFeatures := (signal_iff_usable _).mp (by decide +kernel)
  obtain ⟨-, ofMeans, -, baseline⟩ := contributions_lose_no_term threeFeatures usable
  have documented := ofMeans Profile.referenceMeans defaultTopCount
  have kept := baseline .default (some .reference) fun p member =>
    Option.some.inj member ▸ documented
  exact ⟨usable, documented, kept.2, by decide +kernel⟩

end Detection

end Authorship
