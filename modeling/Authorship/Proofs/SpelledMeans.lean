import Authorship.Proofs.FeatureSpellings
import Authorship.Proofs.JsonMembers
import Authorship.Proofs.ReadMeans

/-
Which means an object gives whose keys may spell a feature in several ways. The entries are read in
the order of their keys, whatever their order in the text is, so the mean that counts is told by the
keys alone.
-/
namespace Authorship.Baseline

open Feature

structure GivesMean (object : Table Json.Value) (side : Side) (name key : String) (x : Float) :
    Prop where
  spelled : ∃ raw, key = raw ++ side.meanSuffix ∧ canonicalName? raw = some name
  valued : ∃ v, object.get? key = some v ∧ finiteNumber? v = some x

/-- The mean that counts: the one under the feature's own name, and without that the one under the
least key. -/
inductive PreferredMean (object : Table Json.Value) (side : Side) (name : String) (x : Float) : Prop
  | own (gives : GivesMean object side name (ownKey side name) x) : PreferredMean object side name x
  | least {key : String} (noOwn : ∀ y, ¬ GivesMean object side name (ownKey side name) y)
      (gives : GivesMean object side name key x)
      (least : ∀ other y, GivesMean object side name other y → key ≤ other) :
      PreferredMean object side name x

namespace Stats

variable {object : Table Json.Value} {side : Side} {name : String}

theorem gives_mean_iff (key : String) (x : Float) :
    GivesMean object side name key x ↔
      ∃ v, (key, v) ∈ object.entries ∧ meanFor? side name (key, v) = some x := by
  constructor
  · rintro ⟨spelled, v, present, number⟩
    exact ⟨v, (object.mem_entries key v).mpr present,
      (mean_for_iff side name key v x).mpr ⟨spelled, number⟩⟩
  · rintro ⟨v, member, given⟩
    obtain ⟨spelled, number⟩ := (mean_for_iff side name key v x).mp given
    exact ⟨spelled, v, (object.mem_entries key v).mp member, number⟩

theorem own_mean_iff (x : Float) :
    ownMean? object.entries side name = some x ↔
      GivesMean object side name (ownKey side name) x := by
  unfold ownMean?
  rw [gives_mean_iff, Option.bind_eq_some_iff]
  simp only [mem_iff_lookup object.ascending]

theorem first_mean_iff (x : Float) :
    object.entries.findSome? (meanFor? side name) = some x ↔
      ∃ key, GivesMean object side name key x ∧
        ∀ other y, GivesMean object side name other y → key ≤ other := by
  rw [first_is_least object.ascending]
  constructor
  · rintro ⟨⟨key, v⟩, member, given, least⟩
    refine ⟨key, (gives_mean_iff key x).mpr ⟨v, member, given⟩, ?_⟩
    intro other y gives
    obtain ⟨w, member', given'⟩ := (gives_mean_iff other y).mp gives
    exact least (other, w) member' (by rw [given', Option.isSome_some])
  · rintro ⟨key, gives, least⟩
    obtain ⟨v, member, given⟩ := (gives_mean_iff key x).mp gives
    refine ⟨(key, v), member, given, ?_⟩
    rintro ⟨other, w⟩ member' gives'
    obtain ⟨y, given'⟩ := Option.isSome_iff_exists.mp gives'
    exact least other y ((gives_mean_iff other y).mpr ⟨w, member', given'⟩)

theorem preferred_mean_iff (x : Float) :
    ((ofEntries object.entries).means side).get? name = some x ↔
      PreferredMean object side name x := by
  rw [means_of_sorted object.ascending, Option.or_eq_some_iff, own_mean_iff, first_mean_iff]
  constructor
  · rintro (own | ⟨noOwn, key, gives, least⟩)
    · exact .own own
    · refine .least ?_ gives least
      intro y own
      rw [(own_mean_iff y).mpr own] at noOwn
      contradiction
  · intro preferred
    cases preferred with
    | own gives => exact Or.inl gives
    | least noOwn gives least =>
      refine Or.inr ⟨?_, _, gives, least⟩
      rw [Option.eq_none_iff_forall_ne_some]
      intro y own
      exact noOwn y ((own_mean_iff y).mp own)

theorem some_mean_iff :
    (((ofEntries object.entries).means side).get? name).isSome = true ↔
      ∃ key x, GivesMean object side name key x := by
  constructor
  · intro found
    obtain ⟨x, found⟩ := Option.isSome_iff_exists.mp found
    cases (preferred_mean_iff x).mp found with
    | own gives => exact ⟨_, x, gives⟩
    | least _ gives _ => exact ⟨_, x, gives⟩
  · rintro ⟨key, x, gives⟩
    obtain ⟨v, member, given⟩ := (gives_mean_iff key x).mp gives
    have found : (object.entries.findSome? (meanFor? side name)).isSome = true := by
      rw [List.findSome?_isSome_iff]
      exact ⟨(key, v), member, by rw [given, Option.isSome_some]⟩
    rw [means_of_sorted object.ascending, Option.isSome_or, found, Bool.or_true]

theorem parse_ok_iff (text : String) (stats : Stats Float) :
    Stats.parse text = .ok stats ↔ ∃ members, Json.ListsMembers text members ∧
      stats = .ofEntries (Table.ofList members).entries := by
  have parsed : Stats.parse text = .ok stats ↔
      ∃ entries, Json.read text = some (.object entries) ∧ stats = .ofEntries entries := by
    unfold Stats.parse
    split
    · simp [*]
    · simp [*, eq_comm]
    · rename_i other found
      simp only [found, reduceCtorEq, Option.some.injEq, false_iff]
      rintro ⟨entries, same, -⟩
      exact other entries same
  rw [parsed]
  simp only [Json.object_text_iff]
  constructor
  · rintro ⟨entries, ⟨members, lists, rfl⟩, same⟩
    exact ⟨members, lists, same⟩
  · rintro ⟨members, lists, same⟩
    exact ⟨_, ⟨members, lists, rfl⟩, same⟩

theorem parse_of_rearranged {text other : String} {members others : List (String × Json.Value)}
    (lists : Json.ListsMembers text members) (lists' : Json.ListsMembers other others)
    (rearranged : Json.Rearranged members others) : Stats.parse text = Stats.parse other := by
  have parsed := (parse_ok_iff text _).mpr ⟨members, lists, rfl⟩
  have parsed' := (parse_ok_iff other _).mpr ⟨others, lists', rfl⟩
  rw [parsed, parsed', Table.of_rearranged rearranged]

end Stats

/-- A feature has a mean on a side exactly if a finite number stands under a key that spells it. Its
own name comes before other spellings, among which the least key comes first, and there are no
spellings but the own name, the older names and the flat one. The order of the keys in the text
does not matter. -/
theorem means_by_spelling :
    (∀ (object : Table Json.Value) (side : Side) (name : String),
      (((Stats.ofEntries object.entries).means side).get? name).isSome = true ↔
        ∃ key x, GivesMean object side name key x) ∧
    (∀ (object : Table Json.Value) (side : Side) (name : String) (x : Float),
      ((Stats.ofEntries object.entries).means side).get? name = some x ↔
        PreferredMean object side name x) ∧
    (∀ raw name, canonicalName? raw = some name ↔ isKnown name = true ∧ Spells raw name) ∧
    (∀ text stats, Stats.parse text = .ok stats ↔ ∃ members, Json.ListsMembers text members ∧
      stats = .ofEntries (Table.ofList members).entries) ∧
    (∀ text other members others, Json.ListsMembers text members →
      Json.ListsMembers other others → Json.Rearranged members others →
        Stats.parse text = Stats.parse other) := by
  refine ⟨?_, ?_, canonical_iff, Stats.parse_ok_iff, ?_⟩
  · intro object side name
    exact Stats.some_mean_iff
  · intro object side name x
    exact Stats.preferred_mean_iff x
  · intro text other members others
    exact Stats.parse_of_rearranged

def spellings : List (String × Json.Value) :=
  [("loc_ai_mean", .int 1), ("basic_loc_ai_mean", .int 2), ("basic.loc_ai_mean", .int 0)]

theorem spellings_listed {entries : List (String × Json.Value)} (members : entries ⊆ spellings)
    (same : (entries.map fun entry => (entry.1, Json.readBack entry.2)) = entries) :
    Json.ListsMembers (Json.compact (.object entries)) entries := by
  have legible : Json.Legible Json.depthLimit (.object entries) := by
    rw [Json.Legible, Json.legible_entries_iff]
    refine ⟨by decide, ?_⟩
    intro key v member
    have listed := members member
    simp only [spellings, List.mem_cons, Prod.mk.injEq, List.not_mem_nil, or_false] at listed
    rcases listed with ⟨-, rfl⟩ | ⟨-, rfl⟩ | ⟨-, rfl⟩ <;> exact ⟨by decide, by decide⟩
  have written := Json.written_object_lists none legible
  rwa [same] at written

theorem own_spelling_wins :
    Stats.parse (Json.compact (.object spellings)) =
      Stats.parse (Json.compact (.object spellings.reverse)) ∧
    ∃ stats, Stats.parse (Json.compact (.object spellings)) = .ok stats ∧
      (stats.means .ai).get? "basic.loc" = some (Float.ofInt 0) ∧
      stats.human.get? "basic.loc" = none := by
  obtain ⟨-, preferred, -, parsed, order⟩ := means_by_spelling
  have first := spellings_listed (List.Subset.refl spellings) rfl
  have second := spellings_listed (List.reverse_subset.mpr (List.Subset.refl spellings)) rfl
  have rearranged : Json.Rearranged spellings spellings.reverse :=
    Json.rearranged_of_distinct (List.reverse_perm spellings).symm (by decide +kernel)
  have gives : GivesMean (Table.ofList spellings) .ai "basic.loc" (ownKey .ai "basic.loc")
      (Float.ofInt 0) := by
    refine ⟨⟨"basic.loc", rfl, by decide +kernel⟩, .int 0, ?_, by decide +kernel⟩
    rw [Table.get_of_list]
    rfl
  exact ⟨order _ _ _ _ first second rearranged, _, (parsed _ _).mpr ⟨spellings, first, rfl⟩,
    (preferred _ _ _ _).mpr (.own gives), by decide +kernel⟩

end Authorship.Baseline
