import Authorship.Baseline.Stats
import Authorship.Proofs.Tables

/-
How means are read from entries, one after the other in the order of their keys. A mean under the
feature's own name replaces what is there, one under another spelling counts only where there is
none, so the own name wins wherever it stands and without it the first key does.
-/
namespace Authorship.Baseline

open Feature

theorem strip_suffix_iff (suffix text name : String) :
    stripSuffix? suffix text = some name ↔ text = name ++ suffix := by
  have taken (cs : List Char) :
      (cs ++ suffix.toList).take ((cs ++ suffix.toList).length - suffix.toList.length) = cs := by
    rw [List.length_append, Nat.add_sub_cancel, List.take_left]
  rw [stripSuffix?]
  constructor
  · intro stripped
    split at stripped
    · rename_i ends
      obtain ⟨cs, parts⟩ := List.isSuffixOf_iff_suffix.mp ends
      simp only [← parts, taken, Option.some.injEq] at stripped
      rw [← String.toList_inj, String.toList_append, ← stripped, String.toList_ofList, parts]
    · contradiction
  · rintro rfl
    simp only [String.toList_append, taken, String.ofList_toList]
    rw [if_pos (by simp)]

theorem strip_suffix_append (name suffix : String) :
    stripSuffix? suffix (name ++ suffix) = some name :=
  (strip_suffix_iff suffix _ name).mpr rfl

theorem strip_other_suffix (name : String) {suffix other : String}
    (differ : ¬ suffix.toList <:+ other.toList) (differ' : ¬ other.toList <:+ suffix.toList) :
    stripSuffix? suffix (name ++ other) = none := by
  have ends : ¬ suffix.toList <:+ name.toList ++ other.toList := by
    intro ends
    rcases Nat.le_total suffix.toList.length other.toList.length with shorter | longer
    · exact differ (List.suffix_of_suffix_length_le ends (List.suffix_append _ _) shorter)
    · exact differ' (List.suffix_of_suffix_length_le (List.suffix_append _ _) ends longer)
  simp only [stripSuffix?, String.toList_append]
  rw [if_neg (by simpa using ends)]

theorem mean_key_iff (key raw : String) (side : Side) :
    meanKey? key = some (side, raw) ↔ key = raw ++ side.meanSuffix := by
  constructor
  · intro found
    rw [meanKey?] at found
    split at found
    · rename_i stripped
      obtain ⟨rfl, rfl⟩ := Prod.mk.inj (Option.some.inj found)
      exact (strip_suffix_iff _ _ _).mp stripped
    · obtain ⟨raw, stripped, same⟩ := Option.map_eq_some_iff.mp found
      obtain ⟨rfl, rfl⟩ := Prod.mk.inj same
      exact (strip_suffix_iff _ _ _).mp stripped
  · rintro rfl
    cases side with
    | ai => rw [meanKey?, strip_suffix_append]
    | human =>
      rw [meanKey?, strip_other_suffix raw (by decide) (by decide)]
      simp only [strip_suffix_append, Option.map_some]

def ownKey (side : Side) (name : String) : String := name ++ side.meanSuffix

def finiteNumber? (v : Json.Value) : Option Float := v.number?.filter (·.isFinite)

def meanFor? (side : Side) (name : String) (entry : String × Json.Value) : Option Float :=
  match meanKey? entry.1 with
  | some (other, raw) =>
    if other = side ∧ canonicalName? raw = some name then finiteNumber? entry.2 else none
  | none => none

theorem mean_for_iff (side : Side) (name key : String) (v : Json.Value) (x : Float) :
    meanFor? side name (key, v) = some x ↔
      (∃ raw, key = raw ++ side.meanSuffix ∧ canonicalName? raw = some name) ∧
        finiteNumber? v = some x := by
  unfold meanFor?
  constructor
  · intro given
    split at given
    · rename_i other raw found
      split at given
      · rename_i meant
        obtain ⟨rfl, meant⟩ := meant
        exact ⟨⟨raw, (mean_key_iff _ _ _).mp found, meant⟩, given⟩
      · contradiction
    · contradiction
  · rintro ⟨⟨raw, rfl, meant⟩, given⟩
    rw [(mean_key_iff _ raw side).mpr rfl]
    simp only [meant, and_self, if_true]
    exact given

namespace Stats

variable {side : Side} {name : String}

theorem add_entry_eq (s : Stats Float) (entry : String × Json.Value) :
    s.addEntry entry =
      match meanKey? entry.1 with
      | some (side, raw) =>
        match canonicalName? raw, finiteNumber? entry.2 with
        | some name, some x => s.addMean side raw name x
        | _, _ => s
      | none => s := by
  unfold addEntry finiteNumber?
  cases meanKey? entry.1 with
  | none => rfl
  | some mean =>
    obtain ⟨side, raw⟩ := mean
    cases entry.2.number? with
    | none => cases canonicalName? raw <;> simp
    | some x =>
      cases meant : canonicalName? raw <;> cases finite : x.isFinite <;>
        simp [Option.filter, meant, finite]

theorem get_set_mean (s : Stats Float) (side other : Side) (raw name : String) (x : Float) :
    ((s.setMean side raw x).means other).get? name =
      if side = other ∧ name = raw then some x else (s.means other).get? name := by
  cases side <;> cases other <;> simp [setMean, means, Table.get_insert]

theorem get_add_mean (s : Stats Float) (raw : String) (x : Float) :
    ((s.addMean side raw name x).means side).get? name =
      if raw = name then some x else ((s.means side).get? name).or (some x) := by
  have contains : (s.means side).contains name = ((s.means side).get? name).isSome := rfl
  unfold addMean
  by_cases own : raw = name
  · simp [own, get_set_mean]
  · cases there : (s.means side).get? name <;> simp [own, contains, there, get_set_mean]

theorem get_add_other_mean (s : Stats Float) {other : Side} {raw name' : String} (x : Float)
    (different : ¬ (other = side ∧ name = name')) :
    ((s.addMean other raw name' x).means side).get? name = (s.means side).get? name := by
  unfold addMean
  split
  · rw [get_set_mean, if_neg different]
  · rfl

/- An entry that gives the feature no mean leaves the mean of the feature as it is. -/
theorem get_add_nothing (s : Stats Float) {entry : String × Json.Value}
    (nothing : meanFor? side name entry = none) :
    ((s.addEntry entry).means side).get? name = (s.means side).get? name := by
  unfold meanFor? at nothing
  rw [add_entry_eq]
  split
  · rename_i other raw found
    rw [found] at nothing
    split
    · rename_i name' x meant given
      apply get_add_other_mean
      rintro ⟨rfl, rfl⟩
      simp only [meant, and_self, if_true, given] at nothing
      contradiction
    · rfl
  · rfl

theorem get_add_given (s : Stats Float) {raw : String} {v : Json.Value} {x : Float}
    (meant : canonicalName? raw = some name) (given : finiteNumber? v = some x) :
    ((s.addEntry (raw ++ side.meanSuffix, v)).means side).get? name =
      if raw = name then some x else ((s.means side).get? name).or (some x) := by
  rw [add_entry_eq, (mean_key_iff _ raw side).mpr rfl]
  simp only [meant, given]
  exact get_add_mean s raw x

def ownMean? (entries : List (String × Json.Value)) (side : Side) (name : String) :
    Option Float :=
  (entries.lookup (ownKey side name)).bind fun v => meanFor? side name (ownKey side name, v)

theorem own_mean_of_cons (key : String) (v : Json.Value) (rest : List (String × Json.Value)) :
    ownMean? ((key, v) :: rest) side name =
      if key = ownKey side name then meanFor? side name (key, v) else ownMean? rest side name := by
  unfold ownMean?
  rw [lookup_of_cons]
  by_cases own : key = ownKey side name
  · rw [if_pos own.symm, if_pos own, Option.bind_some, own]
  · rw [if_neg (Ne.symm own), if_neg own]

/- The induction keeps what has been read so far: it stays unless the own name comes later. -/
theorem means_of_all {entries : List (String × Json.Value)} (sorted : Ascending entries)
    (s : Stats Float) :
    ((entries.foldl addEntry s).means side).get? name =
      (ownMean? entries side name).or
        (((s.means side).get? name).or (entries.findSome? (meanFor? side name))) := by
  induction entries generalizing s with
  | nil => simp [ownMean?]
  | cons entry rest ih =>
    obtain ⟨key, v⟩ := entry
    have noneLater (own : key = ownKey side name) : ownMean? rest side name = none := by
      unfold ownMean?
      rw [← own, first_name_once sorted, Option.bind_none]
    rw [List.foldl_cons, ih (List.pairwise_cons.mp sorted).2, List.findSome?_cons,
      own_mean_of_cons]
    cases given : meanFor? side name (key, v) with
    | none =>
      rw [get_add_nothing s given]
      split
      · rename_i own
        rw [noneLater own]
      · rfl
    | some x =>
      obtain ⟨⟨raw, rfl, meant⟩, number⟩ := (mean_for_iff side name key v x).mp given
      rw [get_add_given s meant number]
      by_cases own : raw = name
      · subst own
        rw [noneLater rfl, if_pos rfl]
        simp [ownKey]
      · have other : raw ++ side.meanSuffix ≠ ownKey side name := by
          intro same
          exact own (by simpa [ownKey] using same)
        rw [if_neg own, if_neg other]
        cases (s.means side).get? name <;> rfl

theorem means_of_sorted {entries : List (String × Json.Value)} (sorted : Ascending entries)
    (side : Side) (name : String) :
    ((ofEntries entries).means side).get? name =
      (ownMean? entries side name).or (entries.findSome? (meanFor? side name)) := by
  have nothing : ((Stats.empty : Stats Float).means side).get? name = none := by cases side <;> rfl
  rw [ofEntries, means_of_all sorted, nothing, Option.none_or]

end Stats

end Authorship.Baseline
