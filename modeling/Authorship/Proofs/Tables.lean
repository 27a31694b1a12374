import Authorship.Table
import Mathlib.Data.List.Sort

/-
A table is told by its lookups: the order of the names leaves only one way to store them. What an
operation does to a table is therefore stated by what it does to lookups.
-/
namespace Authorship

variable {α β : Type}

theorem lookup_of_cons (name n : String) (v : α) (rest : List (String × α)) :
    ((n, v) :: rest).lookup name = if name = n then some v else rest.lookup name := by
  by_cases same : name = n
  · simp [same]
  · rw [List.lookup_cons, beq_false_of_ne same, if_neg same]

theorem lookup_insert_entry (name other : String) (value : α) (entries : List (String × α)) :
    (insertEntry name value entries).lookup other =
      if other = name then some value else entries.lookup other := by
  induction entries with
  | nil => rw [insertEntry, lookup_of_cons]
  | cons head rest ih =>
    obtain ⟨n, v⟩ := head
    simp only [insertEntry]
    split
    · rw [lookup_of_cons]
    · split
      · rename_i here
        rw [lookup_of_cons, lookup_of_cons, ← here]
        split <;> rfl
      · rename_i elsewhere
        rw [lookup_of_cons, ih, lookup_of_cons]
        by_cases same : other = n
        · simp [same, Ne.symm elsewhere]
        · simp [same]

theorem lookup_map (f : α → β) (entries : List (String × α)) (name : String) :
    (entries.map fun entry => (entry.1, f entry.2)).lookup name =
      (entries.lookup name).map f := by
  induction entries with
  | nil => rfl
  | cons head rest ih =>
    obtain ⟨n, v⟩ := head
    rw [List.map_cons, lookup_of_cons, lookup_of_cons, ih]
    split <;> rfl

theorem first_name_once {n : String} {v : α} {rest : List (String × α)}
    (sorted : Ascending ((n, v) :: rest)) : rest.lookup n = none := by
  rw [List.lookup_eq_none_iff]
  intro entry member
  have before := (List.pairwise_cons.mp sorted).1 entry member
  simp only [bne_iff_ne, ne_eq]
  intro equal
  exact String.lt_irrefl n (equal ▸ before)

theorem mem_iff_lookup {entries : List (String × α)} (sorted : Ascending entries) (name : String)
    (value : α) : (name, value) ∈ entries ↔ entries.lookup name = some value := by
  induction entries with
  | nil => simp
  | cons head rest ih =>
    obtain ⟨n, v⟩ := head
    have parts := List.pairwise_cons.mp sorted
    rw [lookup_of_cons, List.mem_cons, ih parts.2]
    by_cases same : name = n
    · simp [same, first_name_once sorted, eq_comm]
    · simp [same]

theorem lookup_of_distinct {entries : List (String × α)}
    (distinct : (entries.map (·.1)).Nodup) {name : String} {value : α}
    (member : (name, value) ∈ entries) : entries.lookup name = some value := by
  induction entries with
  | nil => exact absurd member List.not_mem_nil
  | cons head rest ih =>
    obtain ⟨n, v⟩ := head
    rw [List.map_cons, List.nodup_cons] at distinct
    rw [lookup_of_cons]
    rcases List.mem_cons.mp member with here | later
    · obtain ⟨rfl, rfl⟩ := Prod.mk.inj here
      exact if_pos rfl
    · have other : name ≠ n := by
        rintro rfl
        exact distinct.1 (List.mem_map.mpr ⟨(name, value), later, rfl⟩)
      rw [if_neg other, ih distinct.2 later]

theorem ascending_ext {entries others : List (String × α)} (sorted : Ascending entries)
    (sorted' : Ascending others) (same : ∀ entry, entry ∈ entries ↔ entry ∈ others) :
    entries = others := by
  have asymmetric : Std.Antisymm fun a b : String × α => a.1 < b.1 :=
    ⟨fun a b before after => absurd after (String.lt_asymm before)⟩
  have irreflexive : Std.Irrefl fun a b : String × α => a.1 < b.1 :=
    ⟨fun a => String.lt_irrefl a.1⟩
  exact List.Pairwise.eq_of_mem_iff sorted sorted' fun entry => same entry

theorem ascending_unique {entries others : List (String × α)} (sorted : Ascending entries)
    (sorted' : Ascending others) (same : ∀ name, entries.lookup name = others.lookup name) :
    entries = others := by
  refine ascending_ext sorted sorted' fun entry => ?_
  obtain ⟨name, value⟩ := entry
  rw [mem_iff_lookup sorted, mem_iff_lookup sorted', same]

theorem first_is_least {entries : List (String × α)} (sorted : Ascending entries)
    (f : String × α → Option β) (x : β) :
    entries.findSome? f = some x ↔ ∃ entry ∈ entries, f entry = some x ∧
      ∀ other ∈ entries, (f other).isSome = true → entry.1 ≤ other.1 := by
  have least {x : β} (found : entries.findSome? f = some x) : ∃ entry ∈ entries, f entry = some x ∧
      ∀ other ∈ entries, (f other).isSome = true → entry.1 ≤ other.1 := by
    obtain ⟨before, entry, after, rfl, given, nothing⟩ := List.findSome?_eq_some_iff.mp found
    refine ⟨entry, by simp, given, ?_⟩
    intro other member gives
    have later := (List.pairwise_cons.mp (List.pairwise_append.mp sorted).2.1).1
    rcases List.mem_append.mp member with member | member
    · rw [nothing other member] at gives
      contradiction
    · rcases List.mem_cons.mp member with rfl | member
      · exact String.le_refl other.1
      · exact String.not_lt.mp (String.lt_asymm (later other member))
  constructor
  · exact least
  · rintro ⟨entry, member, given, first⟩
    obtain ⟨y, found⟩ : ∃ y, entries.findSome? f = some y := by
      rw [← Option.isSome_iff_exists, List.findSome?_isSome_iff]
      exact ⟨entry, member, by rw [given, Option.isSome_some]⟩
    obtain ⟨entry', member', given', first'⟩ := least found
    have name : entry.1 = entry'.1 :=
      String.le_antisymm (first entry' member' (by rw [given', Option.isSome_some]))
        (first' entry member (by rw [given, Option.isSome_some]))
    have same : entry = entry' := by
      have value := (mem_iff_lookup sorted _ _).mp member
      rw [name, (mem_iff_lookup sorted _ _).mp member', Option.some.injEq] at value
      exact Prod.ext name value.symm
    rw [found, ← given', ← same, given]

theorem ascending_names {entries : List (String × α)} (sorted : Ascending entries) :
    (entries.map (·.1)).Nodup := by
  refine List.pairwise_map.mpr (sorted.imp ?_)
  intro a b before same
  exact String.lt_irrefl b.1 (same ▸ before)

namespace Table

@[simp] theorem get_empty (name : String) : (empty : Table α).get? name = none := rfl

theorem get_insert (t : Table α) (name other : String) (value : α) :
    (t.insert name value).get? other = if other = name then some value else t.get? other :=
  lookup_insert_entry name other value t.entries

theorem get_update (t : Table α) (name other : String) (f : Option α → α) :
    (t.update name f).get? other = if other = name then some (f (t.get? name)) else t.get? other :=
  get_insert t name other _

theorem mem_entries (t : Table α) (name : String) (value : α) :
    (name, value) ∈ t.entries ↔ t.get? name = some value :=
  mem_iff_lookup t.ascending name value

theorem ext_get {t u : Table α} (same : ∀ name, t.get? name = u.get? name) : t = u := by
  have h := ascending_unique t.ascending u.ascending same
  cases t
  cases u
  simpa using h

theorem contains_iff (t : Table α) (name : String) :
    t.contains name = true ↔ name ∈ t.names := by
  simp only [contains, Option.isSome_iff_exists, ← mem_entries, names, List.mem_map]
  exact ⟨fun ⟨x, h⟩ => ⟨(name, x), h, rfl⟩, fun ⟨entry, h, same⟩ => ⟨entry.2, same ▸ h⟩⟩

theorem get_fold_insert (entries : List (String × α)) (t : Table α) (name : String) :
    (entries.foldl (fun t entry => t.insert entry.1 entry.2) t).get? name =
      (entries.reverse.lookup name).or (t.get? name) := by
  induction entries generalizing t with
  | nil => rfl
  | cons entry rest ih =>
    obtain ⟨n, v⟩ := entry
    rw [List.foldl_cons, ih, get_insert, List.reverse_cons, List.lookup_append, Option.or_assoc,
      lookup_of_cons]
    by_cases same : name = n <;> simp [same]

theorem get_of_list (entries : List (String × α)) (name : String) :
    (ofList entries).get? name = entries.reverse.lookup name := by
  rw [ofList, get_fold_insert, get_empty, Option.or_none]

theorem get_of_append (entries later : List (String × α)) (name : String) :
    (ofList (entries ++ later)).get? name =
      ((ofList later).get? name).or ((ofList entries).get? name) := by
  rw [get_of_list, get_of_list, get_of_list, List.reverse_append, List.lookup_append]

theorem get_of_map (f : α → β) (entries : List (String × α)) (name : String) :
    (ofList (entries.map fun entry => (entry.1, f entry.2))).get? name =
      ((ofList entries).get? name).map f := by
  rw [get_of_list, get_of_list, ← List.map_reverse, lookup_map]

theorem mem_of_get {entries : List (String × α)} {name : String} {value : α}
    (found : (ofList entries).get? name = some value) : (name, value) ∈ entries := by
  rw [get_of_list] at found
  obtain ⟨before, after, parts, -⟩ := List.lookup_eq_some_iff.mp found
  have member : (name, value) ∈ entries.reverse := by simp [parts]
  exact List.mem_reverse.mp member

theorem get_of_mem {entries : List (String × α)} {name : String} {value : α}
    (member : (name, value) ∈ entries) : ((ofList entries).get? name).isSome = true := by
  rw [get_of_list, List.lookup_isSome_iff]
  exact ⟨(name, value), List.mem_reverse.mpr member, beq_self_eq_true name⟩

theorem some_of_list_iff (entries : List (String × α)) (name : String) :
    ((ofList entries).get? name).isSome = true ↔ name ∈ entries.map (·.1) := by
  rw [List.mem_map]
  constructor
  · intro stored
    obtain ⟨value, found⟩ := Option.isSome_iff_exists.mp stored
    exact ⟨(name, value), mem_of_get found, rfl⟩
  · rintro ⟨⟨n, value⟩, member, rfl⟩
    exact get_of_mem member

/- Under different names nothing is overwritten. -/
theorem entries_of_distinct {entries : List (String × α)}
    (distinct : (entries.map (·.1)).Nodup) : (ofList entries).entries.Perm entries := by
  have once : (ofList entries).entries.Nodup :=
    List.Nodup.of_map _ (ascending_names (ofList entries).ascending)
  refine (List.perm_ext_iff_of_nodup once (List.Nodup.of_map _ distinct)).mpr ?_
  rintro ⟨name, value⟩
  rw [mem_entries]
  constructor
  · exact mem_of_get
  · intro member
    have reversed : (entries.reverse.map (·.1)).Nodup := by
      rw [List.map_reverse]
      exact List.nodup_reverse.mpr distinct
    rw [get_of_list]
    exact lookup_of_distinct reversed (List.mem_reverse.mpr member)

theorem not_empty_of_get {t : Table α} {name : String} {value : α}
    (found : t.get? name = some value) : t.isEmpty = false := by
  rw [isEmpty, List.isEmpty_eq_false_iff]
  intro none
  rw [get?, none] at found
  exact absurd found (by simp)

def restrict (t : Table α) (p : String → Prop) [DecidablePred p] : Table α :=
  ⟨t.entries.filter (p ·.1), t.ascending.filter _⟩

theorem lookup_filter (entries : List (String × α)) (p : String → Prop) [DecidablePred p]
    (name : String) : (entries.filter (p ·.1)).lookup name =
      if p name then entries.lookup name else none := by
  induction entries with
  | nil => simp
  | cons entry rest ih =>
    obtain ⟨n, v⟩ := entry
    by_cases same : name = n
    · subst same
      by_cases kept : p name
      · simp [kept]
      · rw [List.filter_cons_of_neg (by simpa using kept), ih, if_neg kept, if_neg kept]
    · by_cases kept : p n <;> simp [kept, lookup_of_cons, same, ih]

theorem get_restrict (t : Table α) (p : String → Prop) [DecidablePred p] (name : String) :
    (t.restrict p).get? name = if p name then t.get? name else none :=
  lookup_filter t.entries p name

/- Whether entries under different names change places makes no difference. -/
theorem of_rearranged {entries others : List (String × α)}
    (same : ∀ name, entries.filter (·.1 = name) = others.filter (·.1 = name)) :
    ofList entries = ofList others := by
  have looked (entries : List (String × α)) (name : String) :
      (ofList entries).get? name = (entries.filter (·.1 = name)).reverse.lookup name := by
    rw [get_of_list, ← List.filter_reverse, lookup_filter entries.reverse (· = name), if_pos rfl]
  apply ext_get
  intro name
  rw [looked, looked, same]

end Table

end Authorship
