import Authorship.Proofs.JsonText
import Authorship.Proofs.MergedCorpora
import Authorship.Proofs.ReadMeans

/-
The statistics file, written and read again. Its keys tell the mean of a feature on one side from
everything else that is written, so of a file that was written from two corpora exactly the means
come back.
-/
namespace Authorship.Baseline

open Feature

theorem deviation_is_no_mean (side : Side) (name : String) :
    meanKey? (name ++ side.deviationSuffix) = none := by
  have noMean (other : Side) :
      stripSuffix? other.meanSuffix (name ++ side.deviationSuffix) = none := by
    cases side <;> cases other <;> exact strip_other_suffix name (by decide) (by decide)
  rw [meanKey?, noMean .ai]
  simp only [noMean .human, Option.map_none]

/- What is read from entries that name features as the schema does. -/

/-- Whether all means are under the names of features and none is under another spelling. -/
def NamesFeatures (entries : List (String × Json.Value)) : Prop :=
  ∀ key v side raw, (key, v) ∈ entries → meanKey? key = some (side, raw) → isKnown raw = true

theorem known_is_canonical {name : String} (known : isKnown name = true) :
    canonicalName? name = some name := by
  rw [canonicalName?, if_pos known]

namespace Stats

section

variable {entries : List (String × Json.Value)} (sorted : Ascending entries)
  (names : NamesFeatures entries) {side : Side} {name : String}

include names

theorem only_own_mean {key : String} {v : Json.Value} (member : (key, v) ∈ entries) {x : Float}
    (given : meanFor? side name (key, v) = some x) : key = ownKey side name := by
  obtain ⟨⟨raw, rfl, meant⟩, -⟩ := (mean_for_iff side name key v x).mp given
  have known := names _ v side raw member ((mean_key_iff _ raw side).mpr rfl)
  rw [known_is_canonical known, Option.some.injEq] at meant
  rw [meant, ownKey]

include sorted

theorem own_mean_of_entries :
    ownMean? entries side name = (entries.lookup (name ++ side.meanSuffix)).bind finiteNumber? := by
  unfold ownMean? ownKey
  apply Option.bind_congr
  intro v found
  have key := (mean_key_iff _ name side).mpr rfl
  have known := names _ v side name ((mem_iff_lookup sorted _ v).mpr found) key
  simp only [meanFor?, key, known_is_canonical known, and_self, if_true]

theorem means_of_entries (side : Side) (name : String) :
    ((ofEntries entries).means side).get? name =
      (entries.lookup (name ++ side.meanSuffix)).bind finiteNumber? := by
  rw [means_of_sorted sorted, ← own_mean_of_entries sorted names]
  cases own : ownMean? entries side name with
  | some x => rfl
  | none =>
    rw [Option.none_or, List.findSome?_eq_none_iff]
    rintro ⟨key, v⟩ member
    rw [Option.eq_none_iff_forall_ne_some]
    intro x given
    have here := only_own_mean names member given
    subst here
    rw [ownMean?, (mem_iff_lookup sorted _ v).mp member, Option.bind_some, given] at own
    contradiction

end

theorem ext_means {s t : Stats Float}
    (same : ∀ side name, (s.means side).get? name = (t.means side).get? name) : s = t := by
  cases s
  cases t
  rw [Stats.mk.injEq]
  exact ⟨Table.ext_get (same .ai), Table.ext_get (same .human)⟩

theorem finite_number_read_back (v : Json.Value) :
    finiteNumber? (Json.readBack v) = finiteNumber? v := by
  cases v with
  | real x => cases finite : x.isFinite <;>
      simp [Json.readBack, finiteNumber?, Json.Value.number?, Option.filter, finite]
  | _ => rw [Json.readBack] <;> rfl

theorem read_back_keeps_means {entries : List (String × Json.Value)} (sorted : Ascending entries)
    (names : NamesFeatures entries) :
    ofEntries (Json.readBackEntries [] entries) = ofEntries entries := by
  have sorted' := Json.read_back_ascending entries (List.Pairwise.nil : Ascending [])
  have looked (key : String) := Json.lookup_read_back sorted [] key
  have names' : NamesFeatures (Json.readBackEntries [] entries) := by
    intro key v side raw member found
    rw [mem_iff_lookup sorted', looked, List.lookup_nil, Option.or_none] at member
    obtain ⟨v', present, -⟩ := Option.map_eq_some_iff.mp member
    exact names key v' side raw ((mem_iff_lookup sorted key v').mpr present) found
  refine ext_means fun side name => ?_
  rw [means_of_entries sorted' names', means_of_entries sorted names, looked, List.lookup_nil,
    Option.or_none]
  cases entries.lookup (name ++ side.meanSuffix) with
  | none => rfl
  | some v => exact finite_number_read_back v

end Stats

namespace Accumulator

def unsorted (a : Accumulator Float) (generatedAt : String) : List (String × Json.Value) :=
  sideEntries .ai a.ai ++ sideEntries .human a.human ++
    [("ai_samples", .int a.ai.samples), ("human_samples", .int a.human.samples),
      ("generated_at", .text generatedAt)]

theorem mem_side_entries (side : Side) (c : Corpus Float) (key : String) (v : Json.Value) :
    (key, v) ∈ sideEntries side c ↔ ∃ name xs, c.values.get? name = some xs ∧
      (key = name ++ side.meanSuffix ∧ v = .real (Scalar.mean xs) ∨
        key = name ++ side.deviationSuffix ∧ v = .real (deviation xs)) := by
  simp only [sideEntries, List.mem_flatMap, ← Table.mem_entries, Prod.exists, List.mem_cons,
    List.not_mem_nil, or_false, Prod.mk.injEq]

theorem mem_unsorted (a : Accumulator Float) (generatedAt key : String) (v : Json.Value) :
    (key, v) ∈ a.unsorted generatedAt ↔
      (∃ side, (key, v) ∈ sideEntries side (a.corpus side)) ∨
      key = "ai_samples" ∧ v = .int a.ai.samples ∨
      key = "human_samples" ∧ v = .int a.human.samples ∨
      key = "generated_at" ∧ v = .text generatedAt := by
  have sides : (∃ side, (key, v) ∈ sideEntries side (a.corpus side)) ↔
      (key, v) ∈ sideEntries .ai a.ai ∨ (key, v) ∈ sideEntries .human a.human := by
    constructor
    · rintro ⟨side, member⟩
      cases side with
      | ai => exact Or.inl member
      | human => exact Or.inr member
    · rintro (member | member)
      · exact ⟨.ai, member⟩
      · exact ⟨.human, member⟩
  simp only [unsorted, List.mem_append, sides, List.mem_cons, List.not_mem_nil, or_false,
    Prod.mk.injEq]

theorem mean_of_key {a : Accumulator Float} {generatedAt key raw : String} {v : Json.Value}
    {side : Side} (member : (key, v) ∈ a.unsorted generatedAt)
    (found : meanKey? key = some (side, raw)) :
    ∃ xs, (a.corpus side).values.get? raw = some xs ∧ v = .real (Scalar.mean xs) := by
  have noMean : meanKey? "ai_samples" = none ∧ meanKey? "human_samples" = none ∧
      meanKey? "generated_at" = none := by decide
  rcases (mem_unsorted a generatedAt key v).mp member with ⟨side', member⟩ | h | h | h
  · obtain ⟨name, xs, present, ⟨rfl, value⟩ | ⟨rfl, -⟩⟩ := (mem_side_entries _ _ _ _).mp member
    · rw [(mean_key_iff _ name side').mpr rfl] at found
      obtain ⟨rfl, rfl⟩ := Prod.mk.inj (Option.some.inj found)
      exact ⟨xs, present, value⟩
    · rw [deviation_is_no_mean] at found
      contradiction
  all_goals
    rw [h.1] at found
    simp [noMean] at found

theorem lookup_mean (a : Accumulator Float) (generatedAt : String) (side : Side) (name : String) :
    (a.entries generatedAt).lookup (name ++ side.meanSuffix) =
      ((a.corpus side).values.get? name).map fun xs => .real (Scalar.mean xs) := by
  change (Table.ofList (a.unsorted generatedAt)).get? (name ++ side.meanSuffix) = _
  have found := (mean_key_iff _ name side).mpr rfl
  cases present : (a.corpus side).values.get? name with
  | none =>
    rw [Option.map_none, Option.eq_none_iff_forall_ne_some]
    intro v stored
    obtain ⟨xs, present', -⟩ := mean_of_key (Table.mem_of_get stored) found
    rw [present] at present'
    contradiction
  | some xs =>
    have member : (name ++ side.meanSuffix, .real (Scalar.mean xs)) ∈ a.unsorted generatedAt :=
      (mem_unsorted _ _ _ _).mpr
        (Or.inl ⟨side, (mem_side_entries _ _ _ _).mpr ⟨name, xs, present, Or.inl ⟨rfl, rfl⟩⟩⟩)
    obtain ⟨v, stored⟩ := Option.isSome_iff_exists.mp (Table.get_of_mem member)
    obtain ⟨xs', present', rfl⟩ := mean_of_key (Table.mem_of_get stored) found
    rw [stored, ← Option.some.inj (present.symm.trans present')]
    rfl

theorem mem_of_entry {a : Accumulator Float} {generatedAt key : String} {v : Json.Value}
    (member : (key, v) ∈ a.entries generatedAt) : (key, v) ∈ a.unsorted generatedAt :=
  Table.mem_of_get ((Table.mem_entries (.ofList (a.unsorted generatedAt)) key v).mp member)

theorem entries_ascending (a : Accumulator Float) (generatedAt : String) :
    Ascending (a.entries generatedAt) :=
  (Table.ofList (a.unsorted generatedAt)).ascending

theorem occurs_iff (side : Side) (name : String) (samples : List (Sample Float)) :
    valuesOf side name samples ≠ [] ↔
      ∃ sample ∈ samples, sample.1 = side ∧ sample.2.contains name = true := by
  induction samples with
  | nil => simp [valuesOf]
  | cons sample rest ih =>
    have values : valuesOf side name (sample :: rest) =
        valuesOf side name [sample] ++ valuesOf side name rest :=
      values_append side name [sample] rest
    have first : valuesOf side name [sample] ≠ [] ↔
        sample.1 = side ∧ sample.2.contains name = true := by
      have contains : sample.2.contains name = (sample.2.get? name).isSome := rfl
      by_cases same : sample.1 = side
      · cases found : sample.2.get? name <;> simp [valuesOf, same, contains, found]
      · simp [valuesOf, same]
    rw [values, Ne, List.append_eq_nil_iff, not_and_or, ← Ne, ← Ne, first, ih,
      List.exists_mem_cons_iff]

theorem sample_of_values {samples : List (Sample Float)} {side : Side} {name : String}
    {xs : List Float} (present : ((collect samples).corpus side).values.get? name = some xs) :
    xs = valuesOf side name samples ∧
      ∃ sample ∈ samples, sample.1 = side ∧ sample.2.contains name = true := by
  rw [collected_values, listed] at present
  split at present
  · contradiction
  · rename_i occurs
    exact ⟨(Option.some.inj present).symm, (occurs_iff side name samples).mp occurs⟩

theorem entries_name_features {samples : List (Sample Float)}
    (known : ∀ sample ∈ samples, ∀ name, sample.2.contains name = true → isKnown name = true)
    (generatedAt : String) : NamesFeatures ((collect samples).entries generatedAt) := by
  intro key v side raw member found
  obtain ⟨xs, present, -⟩ := mean_of_key (mem_of_entry member) found
  obtain ⟨-, sample, member, -, contains⟩ := sample_of_values present
  exact known sample member raw contains

theorem number_of_entry {samples : List (Sample Float)} {generatedAt key : String} {x : Float}
    (member : (key, .real x) ∈ (collect samples).entries generatedAt) :
    ∃ sample ∈ samples, ∃ name, sample.2.contains name = true ∧
      (x = Scalar.mean (valuesOf sample.1 name samples) ∨
        x = deviation (valuesOf sample.1 name samples)) := by
  rcases (mem_unsorted _ _ _ _).mp (mem_of_entry member) with ⟨side, computed⟩ | h | h | h
  · obtain ⟨name, xs, present, value⟩ := (mem_side_entries _ _ _ _).mp computed
    obtain ⟨rfl, sample, chosen, rfl, contains⟩ := sample_of_values present
    simp only [Json.Value.real.injEq] at value
    exact ⟨sample, chosen, name, contains, value.imp And.right And.right⟩
  all_goals simp at h

theorem count_fits {samples : List (Sample Float)} (counted : samples.length < 2 ^ 64)
    (side : Side) : Json.IntFits ((collect samples).corpus side).samples := by
  have limit : Json.significandLimit = 2 ^ 64 := rfl
  have atMost : countOf side samples ≤ samples.length := List.countP_le_length
  rw [collected_samples, Json.IntFits]
  omega

theorem file_is_legible {samples : List (Sample Float)} {generatedAt : String}
    (counted : samples.length < 2 ^ 64)
    (readsBack : ∀ key x, (key, .real x) ∈ (collect samples).entries generatedAt →
      x.isFinite = true → Json.ReadsBack x) :
    Json.Legible Json.depthLimit (.object ((collect samples).entries generatedAt)) := by
  rw [Json.Legible, Json.legible_entries_iff]
  refine ⟨by decide, fun key v member => ?_⟩
  rcases (mem_unsorted _ _ _ _).mp (mem_of_entry member) with ⟨side, computed⟩ | h | h | h
  · obtain ⟨name, xs, -, ⟨-, rfl⟩ | ⟨-, rfl⟩⟩ := (mem_side_entries _ _ _ _).mp computed
    · rw [Json.Legible]
      exact readsBack key _ member
    · rw [Json.Legible]
      exact readsBack key _ member
  · rw [h.2, Json.Legible]
    exact count_fits counted .ai
  · rw [h.2, Json.Legible]
    exact count_fits counted .human
  · rw [h.2, Json.Legible]
    trivial

theorem read_file {a : Accumulator Float} {generatedAt : String}
    (legible : Json.Legible Json.depthLimit (.object (a.entries generatedAt))) :
    Stats.parse (a.fileText generatedAt) =
      .ok (.ofEntries (Json.readBackEntries [] (a.entries generatedAt))) := by
  have read : Json.read (a.fileText generatedAt) =
      some (.object (Json.readBackEntries [] (a.entries generatedAt))) := by
    rw [fileText, Json.pretty, Json.read, String.toList_ofList, Json.read_written _ _ legible,
      Json.readBack]
  rw [Stats.parse, read]

end Accumulator

open Accumulator

/-- From a file that was written of two corpora exactly the means come back: a feature has one on a
side if a vector of that side has it, and it is the mean of its values there. Counts take 64 bits,
numbers are read as they were written and no sum overflows. -/
theorem written_means_come_back (samples : List (Sample Float)) (generatedAt : String)
    (known : ∀ sample ∈ samples, ∀ name, sample.2.contains name = true → isKnown name = true)
    (counted : samples.length < 2 ^ 64)
    (noOverflow : ∀ side name, (Scalar.sum (valuesOf side name samples)).isFinite = true)
    (readsBack : ∀ key x, (key, .real x) ∈ (collect samples).entries generatedAt →
      x.isFinite = true → Json.ReadsBack x) :
    ∃ stats, Stats.parse ((collect samples).fileText generatedAt) = .ok stats ∧
      (collect samples).stats = stats ∧
      ∀ side name, (stats.means side).get? name =
        if ∃ sample ∈ samples, sample.1 = side ∧ sample.2.contains name = true then
          some (Scalar.mean (valuesOf side name samples))
        else none := by
  have names := entries_name_features known
  have means (generatedAt : String) (side : Side) (name : String) :
      ((Stats.ofEntries ((collect samples).entries generatedAt)).means side).get? name =
        (listed (valuesOf side name samples)).map Scalar.mean := by
    rw [Stats.means_of_entries (entries_ascending _ _) (names generatedAt), lookup_mean,
      collected_values, listed]
    split
    · rfl
    · rename_i occurs
      have finite := mean_finite occurs (noOverflow side name)
      simp [finiteNumber?, Json.Value.number?, Option.filter, finite]
  refine ⟨.ofEntries ((collect samples).entries generatedAt), ?_, ?_, ?_⟩
  · rw [read_file (file_is_legible counted readsBack),
      Stats.read_back_keeps_means (entries_ascending _ _) (names generatedAt)]
  · refine Stats.ext_means fun side name => ?_
    rw [Accumulator.stats, means, means]
  · intro side name
    rw [means, listed]
    simp only [← occurs_iff]
    split <;> simp_all

def twoCorpora : List (Sample Float) :=
  [(.ai, .ofList [("basic.loc", 10)]),
    (.human, .ofList [("naming.generic_var_ratio", 0.5), ("basic.loc", 40)]),
    (.ai, .ofList [("basic.loc", 20)])]

theorem two_corpora_come_back :
    ∃ stats, Stats.parse ((collect twoCorpora).fileText "2026-01-01T00:00:00+00:00") = .ok stats ∧
      (collect twoCorpora).stats = stats ∧ (stats.means .ai).get? "basic.loc" = some 15 ∧
      (stats.means .human).get? "naming.generic_var_ratio" = some 0.5 ∧
      (stats.means .ai).get? "naming.generic_var_ratio" = none := by
  have ofName : ∀ sample ∈ twoCorpora, ∀ name ∈ sample.2.values.names, isKnown name = true ∧
      (Scalar.sum (valuesOf sample.1 name twoCorpora)).isFinite = true ∧
      Json.ReadsBack (Scalar.mean (valuesOf sample.1 name twoCorpora)) ∧
      Json.ReadsBack (deviation (valuesOf sample.1 name twoCorpora)) := by decide +kernel
  have known (sample) (member : sample ∈ twoCorpora) (name : String)
      (contains : sample.2.contains name = true) :=
    ofName sample member name ((sample.2.values.contains_iff name).mp contains)
  have noOverflow (side : Side) (name : String) :
      (Scalar.sum (valuesOf side name twoCorpora)).isFinite = true := by
    by_cases occurs : valuesOf side name twoCorpora = []
    · rw [occurs]
      decide +kernel
    · obtain ⟨sample, member, rfl, contains⟩ := (occurs_iff side name twoCorpora).mp occurs
      exact (known sample member name contains).2.1
  have readsBack (key : String) (x : Float) (written : (key, .real x) ∈
      (collect twoCorpora).entries "2026-01-01T00:00:00+00:00") : Json.ReadsBack x := by
    obtain ⟨sample, member, name, contains, rfl | rfl⟩ := number_of_entry written
    · exact (known sample member name contains).2.2.1
    · exact (known sample member name contains).2.2.2
  obtain ⟨stats, parsed, same, means⟩ := written_means_come_back twoCorpora _
    (fun sample member name contains => (known sample member name contains).1)
    (by decide) noOverflow (fun key x written _ => readsBack key x written)
  refine ⟨stats, parsed, same, ?_, ?_, ?_⟩ <;>
  · rw [means]
    decide +kernel

end Authorship.Baseline
