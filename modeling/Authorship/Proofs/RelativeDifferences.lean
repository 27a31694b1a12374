import Authorship.Baseline.Comparison
import Authorship.Proofs.FeatureVectors
import Authorship.Proofs.Ranking

/-
One file against the means of the machine-written corpus. There is exactly one list of rows that
has every feature with a value and a mean once, says of each how far off it is, and has the rows
that are further off first; comparing gives that list.
-/
namespace Authorship.Baseline

open Feature Scalar

variable {features : FeatureVector Rat} {profile : Profile Rat}

/-- The words of a row go by the size of the percentage and by the sign of the difference, which
differ in sign where the mean is below zero. -/
structure RowOf (features : FeatureVector Rat) (profile : Profile Rat) (row : Comparison Rat) :
    Prop where
  value : features.get? row.feature = some row.value
  aiMean : profile.mean? .ai row.feature = some row.aiMean
  category : row.category = namespaceOf row.feature
  difference : row.difference = row.value - row.aiMean
  percent : row.percent =
    if row.aiMean = 0 then 0 else (row.value - row.aiMean) / row.aiMean * 100
  similar : row.interpretation = .similar ↔ |row.percent| < 10
  higher : row.interpretation = .higher ↔ 10 ≤ |row.percent| ∧ row.aiMean < row.value
  lower : row.interpretation = .lower ↔ 10 ≤ |row.percent| ∧ row.value < row.aiMean

def FurtherOff (row later : Comparison Rat) : Prop :=
  |later.percent| < |row.percent| ∨ |row.percent| = |later.percent| ∧ row.feature < later.feature

structure ComparisonOf (features : FeatureVector Rat) (profile : Profile Rat)
    (rows : List (Comparison Rat)) : Prop where
  sound : ∀ row ∈ rows, RowOf features profile row
  complete : ∀ name, name ∈ rows.map (·.feature) ↔
    (features.get? name).isSome = true ∧ (profile.mean? .ai name).isSome = true
  once : (rows.map (·.feature)).Nodup
  ordered : rows.Pairwise FurtherOff

theorem exact_percent (feature : String) (value aiMean : Rat) :
    (compareValue feature value aiMean).percent =
      if aiMean = 0 then 0 else (value - aiMean) / aiMean * 100 := by
  simp only [compareValue, exact_zero, exact_count, beq_iff_eq, Nat.cast_ofNat]

theorem exact_similar_percent : (similarPercent : Rat) = 10 := by
  rw [similarPercent]
  norm_num

theorem interpret_cases (difference percent : Rat) :
    (|percent| < 10 ∧ interpret difference percent = .similar) ∨
      (10 ≤ |percent| ∧ 0 < difference ∧ interpret difference percent = .higher) ∨
      (10 ≤ |percent| ∧ difference ≤ 0 ∧ interpret difference percent = .lower) := by
  unfold interpret
  rw [exact_abs, exact_similar_percent, exact_zero]
  by_cases near : |percent| < 10
  · exact Or.inl ⟨near, if_pos near⟩
  · rw [if_neg near]
    by_cases above : 0 < difference
    · exact Or.inr (Or.inl ⟨not_lt.mp near, above, if_pos above⟩)
    · exact Or.inr (Or.inr ⟨not_lt.mp near, not_lt.mp above, if_neg above⟩)

theorem differs_of_percent {value aiMean : Rat}
    (far : 10 ≤ |if aiMean = 0 then 0 else (value - aiMean) / aiMean * 100|) : value ≠ aiMean := by
  rintro rfl
  simp at far
  norm_num at far

theorem row_of_values {name : String} {value aiMean : Rat}
    (held : features.get? name = some value) (mean : profile.mean? .ai name = some aiMean) :
    RowOf features profile (compareValue name value aiMean) := by
  have percent := exact_percent name value aiMean
  have differs : 10 ≤ |(compareValue name value aiMean).percent| → value ≠ aiMean := by
    rw [percent]
    exact differs_of_percent
  have words := interpret_cases (value - aiMean) (compareValue name value aiMean).percent
  have interpreted : (compareValue name value aiMean).interpretation =
    interpret (value - aiMean) (compareValue name value aiMean).percent := rfl
  rw [← interpreted, sub_pos, sub_nonpos] at words
  refine ⟨held, mean, rfl, rfl, percent, ?_, ?_, ?_⟩ <;>
    rcases words with ⟨near, same⟩ | ⟨far, above, same⟩ | ⟨far, below, same⟩ <;>
    rw [same]
  · exact iff_of_true rfl near
  · exact iff_of_false nofun far.not_gt
  · exact iff_of_false nofun far.not_gt
  · exact iff_of_false nofun fun other => near.not_ge other.1
  · exact iff_of_true rfl ⟨far, above⟩
  · exact iff_of_false nofun fun other => below.not_gt other.2
  · exact iff_of_false nofun fun other => near.not_ge other.1
  · exact iff_of_false nofun fun other => above.not_gt other.2
  · exact iff_of_true rfl ⟨far, lt_of_le_of_ne below (differs far)⟩

theorem row_unique {row other : Comparison Rat} (sound : RowOf features profile row)
    (sound' : RowOf features profile other) (named : row.feature = other.feature) :
    row = other := by
  have value := sound.value
  have aiMean := sound.aiMean
  rw [named, sound'.value, Option.some_inj] at value
  rw [named, sound'.aiMean, Option.some_inj] at aiMean
  have percent := sound.percent
  rw [← value, ← aiMean, ← sound'.percent] at percent
  have interpretation : row.interpretation = other.interpretation := by
    have similar := sound.similar
    have higher := sound.higher
    have lower := sound.lower
    rw [percent, ← sound'.similar] at similar
    rw [percent, ← value, ← aiMean, ← sound'.higher] at higher
    rw [percent, ← value, ← aiMean, ← sound'.lower] at lower
    cases said : row.interpretation with
    | similar => exact (similar.mp said).symm
    | higher => exact (higher.mp said).symm
    | lower => exact (lower.mp said).symm
  have category := sound.category
  have difference := sound.difference
  rw [named, ← sound'.category] at category
  rw [← value, ← aiMean, ← sound'.difference] at difference
  cases row
  cases other
  simp_all

theorem mem_compare_to_ai {row : Comparison Rat} :
    row ∈ compareToAi features profile ↔ ∃ value aiMean, features.get? row.feature = some value ∧
      profile.mean? .ai row.feature = some aiMean ∧
      row = compareValue row.feature value aiMean := by
  rw [compareToAi, mem_sort, List.mem_filterMap]
  constructor
  · rintro ⟨⟨name, value⟩, member, made⟩
    obtain ⟨aiMean, mean, rfl⟩ := Option.map_eq_some_iff.mp made
    exact ⟨value, aiMean, (Table.mem_entries _ _ _).mp member, mean, rfl⟩
  · rintro ⟨value, aiMean, held, mean, made⟩
    refine ⟨(row.feature, value), (Table.mem_entries _ _ _).mpr held, ?_⟩
    rw [made] at mean ⊢
    exact Option.map_eq_some_iff.mpr ⟨aiMean, mean, rfl⟩

theorem compared_names_ascending (features : FeatureVector Rat) (profile : Profile Rat) :
    ((features.entries.filterMap fun (name, value) =>
      (profile.mean? .ai name).map (compareValue name value)).map (·.feature)).Pairwise
        (· < ·) := by
  rw [List.pairwise_map]
  refine List.Pairwise.filterMap _ ?_ features.values.ascending
  rintro ⟨name, value⟩ ⟨name', value'⟩ before row made row' made'
  obtain ⟨aiMean, -, rfl⟩ := Option.map_eq_some_iff.mp made
  obtain ⟨aiMean', -, rfl⟩ := Option.map_eq_some_iff.mp made'
  exact before

theorem compared_names_distinct (features : FeatureVector Rat) (profile : Profile Rat) :
    ((compareToAi features profile).map (·.feature)).Nodup := by
  rw [compareToAi, ((sort_perm _ _).map _).nodup_iff]
  exact (compared_names_ascending features profile).imp ne_of_lt

theorem compared_furthest_first (features : FeatureVector Rat) (profile : Profile Rat) :
    (compareToAi features profile).Pairwise FurtherOff := by
  have sizes : (fun row : Comparison Rat => Scalar.abs row.percent) = fun row => |row.percent| :=
    funext fun row => exact_abs row.percent
  rw [compareToAi, sizes]
  exact sort_larger_first _ _ ((compared_names_ascending features profile).imp ne_of_lt)

theorem further_off_asymm {row later : Comparison Rat} (further : FurtherOff row later) :
    ¬ FurtherOff later row := by
  rintro (larger | ⟨same, earlier⟩)
  · rcases further with larger' | ⟨same', -⟩
    · exact lt_asymm larger larger'
    · exact larger.ne same'
  · rcases further with larger' | ⟨-, earlier'⟩
    · exact larger'.ne same
    · exact String.lt_asymm earlier earlier'

theorem comparison_unique {rows rows' : List (Comparison Rat)}
    (comparison : ComparisonOf features profile rows)
    (comparison' : ComparisonOf features profile rows') : rows = rows' := by
  have asymmetric : Std.Antisymm FurtherOff :=
    ⟨fun _ _ first second => absurd second (further_off_asymm first)⟩
  have irreflexive : Std.Irrefl FurtherOff := ⟨fun _ further => further_off_asymm further further⟩
  have within {rows rows' : List (Comparison Rat)} (comparison : ComparisonOf features profile rows)
      (comparison' : ComparisonOf features profile rows') : rows ⊆ rows' := by
    intro row member
    have named := List.mem_map_of_mem (f := (·.feature)) member
    rw [comparison.complete, ← comparison'.complete] at named
    obtain ⟨other, member', same⟩ := List.mem_map.mp named
    rwa [row_unique (comparison.sound row member) (comparison'.sound other member') same.symm]
  apply List.Pairwise.eq_of_mem_iff comparison.ordered comparison'.ordered
  exact fun row => ⟨fun inside => within comparison comparison' inside,
    fun inside => within comparison' comparison inside⟩

theorem compared_to_ai (features : FeatureVector Rat) (profile : Profile Rat) :
    ComparisonOf features profile (compareToAi features profile) where
  sound := by
    intro row member
    obtain ⟨value, aiMean, held, mean, made⟩ := mem_compare_to_ai.mp member
    rw [made]
    exact row_of_values held mean
  complete := by
    intro name
    rw [List.mem_map, Option.isSome_iff_exists, Option.isSome_iff_exists]
    constructor
    · rintro ⟨row, member, rfl⟩
      obtain ⟨value, aiMean, held, mean, -⟩ := mem_compare_to_ai.mp member
      exact ⟨⟨value, held⟩, aiMean, mean⟩
    · rintro ⟨⟨value, held⟩, aiMean, mean⟩
      exact ⟨compareValue name value aiMean,
        mem_compare_to_ai.mpr ⟨value, aiMean, held, mean, rfl⟩, rfl⟩
  once := compared_names_distinct features profile
  ordered := compared_furthest_first features profile

/-- Comparing gives every feature that has a value and a mean, once and with its difference, by the
size of the percentage and then by name. -/
theorem comparison_lists_furthest_first (features : FeatureVector Rat) (profile : Profile Rat)
    (rows : List (Comparison Rat)) :
    ComparisonOf features profile rows ↔ rows = compareToAi features profile := by
  constructor
  · intro comparison
    exact comparison_unique comparison (compared_to_ai features profile)
  · rintro rfl
    exact compared_to_ai features profile

/- The mean below zero turns the sign of the percentage, and the mean of zero leaves none. -/
example :
    let features : FeatureVector Rat := ⟨.ofList [("ast.max_depth", 3), ("basic.loc", -6),
      ("custom.a", 1), ("custom.b", 9.5)]⟩
    let profile : Profile Rat := .ofStats
      ⟨.ofList [("ast.max_depth", 0), ("basic.loc", -4), ("custom.b", 10)], .empty⟩ 15
    (compareToAi features profile).map (fun row => (row.feature, row.percent, row.interpretation)) =
      [("basic.loc", 50, .lower), ("custom.b", -5, .similar), ("ast.max_depth", 0, .similar)] := by
  decide +kernel

end Authorship.Baseline
