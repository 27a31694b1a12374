import Authorship.Proofs.FeatureSpellings
import Authorship.Report.Features

/-
The groups of a feature report. A group holds the features whose names begin with its namespace and
a dot, by what follows the dot. No namespace has a dot in it, so that no name falls into two groups,
and putting the same text before two names does not change their order.
-/
namespace Authorship

namespace Feature

variable {group other name name' : String}

def InSomeNamespace (name : String) : Prop :=
  ∃ group ∈ namespaces, (group ++ ".").toList <+: name.toList

theorem in_some_namespace_iff (name : String) :
    InSomeNamespace name ↔ ∃ group ∈ namespaces, ∃ rest, name = joinName group rest := by
  constructor
  · rintro ⟨group, member, rest, parts⟩
    refine ⟨group, member, String.ofList rest, ?_⟩
    rw [joinName, ← String.toList_inj, String.toList_append, String.toList_ofList, parts]
  · rintro ⟨group, member, rest, rfl⟩
    refine ⟨group, member, rest.toList, ?_⟩
    simp [joinName]

theorem joined_same_iff (group : String) :
    joinName group name = joinName group name' ↔ name = name' := by
  simp [joinName]

theorem joined_apart (member : group ∈ namespaces) (member' : other ∈ namespaces)
    (same : joinName group name = joinName other name') : group = other ∧ name = name' := by
  have first : group = other := by
    rw [← Analysis.namespace_of_joined (namespaces_have_no_dot group member) name, same,
      Analysis.namespace_of_joined (namespaces_have_no_dot other member')]
  subst first
  exact ⟨rfl, (joined_same_iff group).mp same⟩

theorem joined_later (group : String) (before : name < name') :
    joinName group name < joinName group name' := by
  simp only [joinName, String.lt_iff, String.toList_append] at before ⊢
  exact List.append_left_lt before

theorem joined_in_order (group : String) :
    joinName group name < joinName group name' ↔ name < name' := by
  refine ⟨fun before => ?_, joined_later group⟩
  by_contra other
  by_cases same : name = name'
  · exact String.lt_irrefl _ (same ▸ before)
  · exact String.lt_asymm before (joined_later group (name_after other same))

end Feature

open Feature

namespace FeatureVector

variable {α : Type} (v : FeatureVector α) (group : String)

theorem mem_in_namespace (name : String) (x : α) :
    (name, x) ∈ v.inNamespace group ↔ (joinName group name, x) ∈ v.entries := by
  simp only [inNamespace, List.mem_filterMap, Option.map_eq_some_iff, strip_prefix_iff]
  constructor
  · rintro ⟨⟨full, y⟩, member, rest, text, same⟩
    obtain ⟨rfl, rfl⟩ := Prod.mk.inj same
    rwa [joinName, ← text]
  · intro member
    exact ⟨_, member, name, rfl, rfl⟩

theorem in_namespace_ascending : Ascending (v.inNamespace group) := by
  refine List.Pairwise.filterMap _ ?_ v.values.ascending
  rintro ⟨full, x⟩ ⟨full', x'⟩ before entry first entry' second
  obtain ⟨rest, stripped, rfl⟩ := Option.map_eq_some_iff.mp first
  obtain ⟨rest', stripped', rfl⟩ := Option.map_eq_some_iff.mp second
  rw [strip_prefix_iff] at stripped stripped'
  refine (joined_in_order group).mp ?_
  rwa [joinName, joinName, ← stripped, ← stripped']

end FeatureVector

namespace Report

variable {α : Type}

def listing (groups : List (FeatureGroup α)) : List (String × α) :=
  groups.flatMap fun g => g.features.map fun (name, x) => (joinName g.group name, x)

/-- The groups list the features whose names begin with a namespace, each of them once and no
others. Groups come in the order of the namespaces and names in their own, and no group is empty. -/
structure GroupsOf (v : FeatureVector α) (groups : List (FeatureGroup α)) : Prop where
  listed : ∀ name x, (name, x) ∈ listing groups ↔ (name, x) ∈ v.entries ∧ InSomeNamespace name
  once : ((listing groups).map (·.1)).Nodup
  inOrder : (groups.map (·.group)).Sublist namespaces
  namesInOrder : ∀ g ∈ groups, Ascending g.features
  filled : ∀ g ∈ groups, g.features ≠ []

theorem mem_listing {groups : List (FeatureGroup α)} {name : String} {x : α} :
    (name, x) ∈ listing groups ↔
      ∃ g ∈ groups, ∃ rest, (rest, x) ∈ g.features ∧ name = joinName g.group rest := by
  simp only [listing, List.mem_flatMap, List.mem_map, Prod.mk.injEq]
  constructor
  · rintro ⟨g, member, ⟨rest, y⟩, inside, rfl, rfl⟩
    exact ⟨g, member, rest, inside, rfl⟩
  · rintro ⟨g, member, rest, inside, rfl⟩
    exact ⟨g, member, (rest, x), inside, rfl, rfl⟩

theorem namespaces_distinct : namespaces.Nodup := by decide

theorem group_known {groups : List (FeatureGroup α)}
    (inOrder : (groups.map (·.group)).Sublist namespaces) {g : FeatureGroup α}
    (member : g ∈ groups) : g.group ∈ namespaces :=
  inOrder.subset (List.mem_map_of_mem member)

/- The groups that are made. -/

section

variable (v : FeatureVector α)

theorem mem_feature_groups (g : FeatureGroup α) : g ∈ featureGroups v ↔
    g.group ∈ namespaces ∧ g.features = v.inNamespace g.group ∧ g.features ≠ [] := by
  simp only [featureGroups, List.mem_filter, List.mem_map, Bool.not_eq_true',
    List.isEmpty_eq_false_iff]
  constructor
  · rintro ⟨⟨group, member, rfl⟩, filled⟩
    exact ⟨member, rfl, filled⟩
  · rintro ⟨member, features, filled⟩
    exact ⟨⟨g.group, member, by rw [← features]⟩, filled⟩

theorem feature_groups_in_order : ((featureGroups v).map (·.group)).Sublist namespaces := by
  have kept := (List.filter_sublist (p := fun g : FeatureGroup α => !g.features.isEmpty)
    (l := namespaces.map fun group => ⟨group, v.inNamespace group⟩)).map (·.group)
  rw [List.map_map] at kept
  simpa [featureGroups, Function.comp_def] using kept

theorem feature_groups_listed (name : String) (x : α) :
    (name, x) ∈ listing (featureGroups v) ↔ (name, x) ∈ v.entries ∧ InSomeNamespace name := by
  rw [mem_listing, in_some_namespace_iff]
  constructor
  · rintro ⟨g, member, rest, inside, rfl⟩
    obtain ⟨known, features, -⟩ := (mem_feature_groups v g).mp member
    rw [features, FeatureVector.mem_in_namespace] at inside
    exact ⟨inside, g.group, known, rest, rfl⟩
  · rintro ⟨stored, group, known, rest, rfl⟩
    have inside := (v.mem_in_namespace group rest x).mpr stored
    refine ⟨⟨group, v.inNamespace group⟩, ?_, rest, inside, rfl⟩
    exact (mem_feature_groups v _).mpr ⟨known, rfl, List.ne_nil_of_mem inside⟩

end

theorem listed_once {groups : List (FeatureGroup α)}
    (inOrder : (groups.map (·.group)).Sublist namespaces)
    (namesInOrder : ∀ g ∈ groups, Ascending g.features) :
    ((listing groups).map (·.1)).Nodup := by
  have apart : groups.Pairwise fun g h => g.group ≠ h.group :=
    List.pairwise_map.mp (inOrder.nodup namespaces_distinct)
  rw [listing, List.map_flatMap, List.nodup_flatMap]
  constructor
  · intro g member
    have within := ascending_names (namesInOrder g member)
    have joined := within.map (f := joinName g.group) fun _ _ => (joined_same_iff g.group).mp
    simpa [Function.comp_def] using joined
  · refine apart.imp_of_mem fun member member' different => ?_
    simp only [Function.onFun, List.disjoint_left, List.map_map, List.mem_map, Function.comp_apply]
    rintro name ⟨entry, -, rfl⟩ ⟨entry', -, same⟩
    have known := group_known inOrder member
    have known' := group_known inOrder member'
    exact different (joined_apart known' known same).1.symm

theorem feature_groups_of (v : FeatureVector α) : GroupsOf v (featureGroups v) := by
  have namesInOrder : ∀ g ∈ featureGroups v, Ascending g.features := by
    intro g member
    rw [((mem_feature_groups v g).mp member).2.1]
    exact v.in_namespace_ascending g.group
  exact
    { listed := feature_groups_listed v
      once := listed_once (feature_groups_in_order v) namesInOrder
      inOrder := feature_groups_in_order v
      namesInOrder := namesInOrder
      filled := fun g member => ((mem_feature_groups v g).mp member).2.2 }

/- No other groups list the same. -/

section

variable {v : FeatureVector α} {groups others : List (FeatureGroup α)}

theorem GroupsOf.listed_in (made : GroupsOf v groups) {group rest : String} {x : α}
    (known : group ∈ namespaces) (stored : (rest, x) ∈ v.inNamespace group) :
    ∃ g ∈ groups, g.group = group ∧ (rest, x) ∈ g.features := by
  rw [FeatureVector.mem_in_namespace] at stored
  have grouped := (in_some_namespace_iff _).mpr ⟨group, known, rest, rfl⟩
  obtain ⟨g, member, rest', inside, same⟩ :=
    mem_listing.mp ((made.listed _ x).mpr ⟨stored, grouped⟩)
  obtain ⟨rfl, rfl⟩ := joined_apart known (group_known made.inOrder member) same
  exact ⟨g, member, rfl, inside⟩

theorem GroupsOf.features_eq (made : GroupsOf v groups) {g : FeatureGroup α}
    (member : g ∈ groups) : g.features = v.inNamespace g.group := by
  refine ascending_ext (made.namesInOrder g member) (v.in_namespace_ascending g.group) ?_
  rintro ⟨rest, x⟩
  constructor
  · intro inside
    rw [FeatureVector.mem_in_namespace]
    exact ((made.listed _ x).mp (mem_listing.mpr ⟨g, member, rest, inside, rfl⟩)).1
  · intro stored
    have known := group_known made.inOrder member
    obtain ⟨g', member', same, inside⟩ := made.listed_in known stored
    have distinct := made.inOrder.nodup namespaces_distinct
    rwa [← List.inj_on_of_nodup_map distinct member' member same]

theorem GroupsOf.mem_iff (made : GroupsOf v groups) (g : FeatureGroup α) : g ∈ groups ↔
    g.group ∈ namespaces ∧ g.features = v.inNamespace g.group ∧ g.features ≠ [] := by
  constructor
  · intro member
    exact ⟨group_known made.inOrder member, made.features_eq member, made.filled g member⟩
  · rintro ⟨known, features, filled⟩
    obtain ⟨⟨rest, x⟩, inside⟩ := List.exists_mem_of_ne_nil _ filled
    obtain ⟨g', member, same, -⟩ := made.listed_in known (features ▸ inside)
    have features' := made.features_eq member
    rw [same, ← features] at features'
    cases g
    cases g'
    cases same
    cases features'
    exact member

theorem namespaces_by_place : namespaces.Pairwise fun group other =>
    namespaces.idxOf group < namespaces.idxOf other := by
  decide +kernel

theorem GroupsOf.unique (made : GroupsOf v groups) (made' : GroupsOf v others) :
    groups = others := by
  have placed {groups : List (FeatureGroup α)} (made : GroupsOf v groups) :
      groups.Pairwise fun g h => namespaces.idxOf g.group < namespaces.idxOf h.group := by
    have ordered := namespaces_by_place.sublist made.inOrder
    rw [List.pairwise_map] at ordered
    exact ordered
  have asymmetric : Std.Antisymm fun g h : FeatureGroup α =>
      namespaces.idxOf g.group < namespaces.idxOf h.group :=
    ⟨fun g h before after => absurd after (Nat.lt_asymm before)⟩
  have irreflexive : Std.Irrefl fun g h : FeatureGroup α =>
      namespaces.idxOf g.group < namespaces.idxOf h.group :=
    ⟨fun g => Nat.lt_irrefl _⟩
  refine List.Pairwise.eq_of_mem_iff (placed made) (placed made') ?_
  intro g
  rw [made.mem_iff, made'.mem_iff]

end

/-- The groups of a report hold the features of every namespace, each one once and all in order, and
leave out what is in no namespace; they are the only ones that do so. -/
theorem features_grouped_by_namespace (path : String) (v : FeatureVector Float)
    (profile : Baseline.Profile Float) (groups : List (FeatureGroup Float)) :
    (FeatureReport.make path v profile).groups = groups ↔ GroupsOf v groups := by
  constructor
  · rintro rfl
    exact feature_groups_of v
  · exact (feature_groups_of v).unique

/-- What follows the dot may be empty. A namespace without its dot is no name in it. -/
example : featureGroups (α := Nat) ⟨.ofList [("naming.a.b", 0), ("ast", 1), ("ast.y", 2),
    ("ast.", 3), ("asts.y", 4), ("basic.x", 5), ("other.x", 6)]⟩ =
      [⟨"basic", [("x", 5)]⟩, ⟨"ast", [("", 3), ("y", 2)]⟩, ⟨"naming", [("a.b", 0)]⟩] := by
  decide +kernel

end Report

end Authorship
