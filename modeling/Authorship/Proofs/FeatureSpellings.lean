import Authorship.Proofs.ExtractedVector

/-
How a statistics file may spell the name of a feature. No spelling means two features, whatever the
order in which the namespaces are tried: none of them takes the names of another one.
-/
namespace Authorship.Feature

def replaceFirstDot : List Char → List Char
  | [] => []
  | c :: cs => if c = '.' then '_' :: cs else c :: replaceFirstDot cs

def flatName (name : String) : String := String.ofList (replaceFirstDot name.toList)

/-- The ways in which a statistics file may spell the name of a feature. -/
inductive Spells : String → String → Prop
  | own (name : String) : Spells name name
  | older {raw name : String} (listed : (raw, name) ∈ aliases) : Spells raw name
  | flat (name : String) : Spells (flatName name) name

theorem replace_behind {cs : List Char} (undotted : '.' ∉ cs) (rest : List Char) :
    replaceFirstDot (cs ++ '.' :: rest) = cs ++ '_' :: rest := by
  induction cs with
  | nil => rfl
  | cons c cs ih =>
    rw [List.mem_cons, not_or] at undotted
    rw [List.cons_append, replaceFirstDot, if_neg (Ne.symm undotted.1), ih undotted.2,
      List.cons_append]

theorem flat_joined {group : String} (undotted : '.' ∉ group.toList) (name : String) :
    flatName (joinName group name) = group ++ "_" ++ name := by
  have text : (joinName group name).toList = group.toList ++ '.' :: name.toList := by
    simp [joinName]
  unfold flatName
  rw [text, replace_behind undotted, ← String.toList_inj]
  simp

theorem strip_prefix_iff (start text rest : String) :
    stripPrefix? start text = some rest ↔ text = start ++ rest := by
  unfold stripPrefix?
  constructor
  · intro stripped
    split at stripped
    · rename_i begins
      obtain ⟨cs, parts⟩ := List.isPrefixOf_iff_prefix.mp begins
      rw [← parts, List.drop_left, Option.some.injEq] at stripped
      rw [← String.toList_inj, String.toList_append, ← stripped, String.toList_ofList, parts]
    · contradiction
  · rintro rfl
    simp

theorem looked_up_name {name : String} {spec : Spec} (found : lookup? name = some spec) :
    spec.name = name := ((lookup_eq_some_iff name spec).mp found).2

theorem listed_of_lookup {raw name : String} (found : aliases.lookup raw = some name) :
    (raw, name) ∈ aliases := by
  obtain ⟨before, after, parts, -⟩ := List.lookup_eq_some_iff.mp found
  simp [parts]

theorem found_of_only {α β : Type} {as : List α} {f : α → Option β} {a : α} {b : β}
    (member : a ∈ as) (given : f a = some b) (only : ∀ x ∈ as, ∀ y, f x = some y → y = b) :
    as.findSome? f = some b := by
  cases found : as.findSome? f with
  | none =>
    rw [List.findSome?_eq_none_iff.mp found a member] at given
    contradiction
  | some y =>
    obtain ⟨x, member', given'⟩ := List.exists_of_findSome?_eq_some found
    rw [only x member' y given']

/- The namespaces and the older names. -/

theorem namespaces_have_no_dot : ∀ group ∈ namespaces, '.' ∉ group.toList := by decide

theorem namespaces_apart : ∀ group ∈ namespaces, ∀ other ∈ namespaces, ∀ mark ∈ ["_", "."],
    (group ++ "_").toList <+: (other ++ mark).toList ∨
      (other ++ mark).toList <+: (group ++ "_").toList → group = other ∧ mark = "_" := by
  decide +kernel

theorem aliases_mean_features : ∀ entry ∈ aliases, canonicalName? entry.1 = some entry.2 := by
  decide +kernel

theorem aliases_are_not_flat : ∀ entry ∈ aliases, ∀ group ∈ namespaces,
    ((stripPrefix? (group ++ "_") entry.1).all fun rest => !isKnown (joinName group rest)) =
      true := by
  decide +kernel

theorem same_namespace {group other mark rest rest' : String} (member : group ∈ namespaces)
    (member' : other ∈ namespaces) (listed : mark ∈ ["_", "."])
    (same : group ++ "_" ++ rest = other ++ mark ++ rest') : group = other ∧ mark = "_" := by
  have chars : (group ++ "_").toList ++ rest.toList = (other ++ mark).toList ++ rest'.toList := by
    rw [← String.toList_append, same, String.toList_append]
  have begins : (group ++ "_").toList <+: (other ++ mark).toList ++ rest'.toList :=
    chars ▸ List.prefix_append _ _
  exact namespaces_apart group member other member' mark listed
    (List.prefix_or_prefix_of_prefix begins (List.prefix_append _ _))

/- What is found when one namespace is tried. -/
theorem found_in_namespace (group raw name : String) :
    (do
      let rest ← stripPrefix? (group ++ "_") raw
      let spec ← lookup? (joinName group rest)
      return spec.name) = some name ↔
      ∃ rest, raw = group ++ "_" ++ rest ∧ name = joinName group rest ∧ isKnown name = true := by
  constructor
  · intro found
    obtain ⟨rest, stripped, found⟩ := Option.bind_eq_some_iff.mp found
    obtain ⟨spec, meant, same⟩ := Option.bind_eq_some_iff.mp found
    cases same
    have own := looked_up_name meant
    refine ⟨rest, (strip_prefix_iff _ _ _).mp stripped, own, ?_⟩
    rw [isKnown, own, meant, Option.isSome_some]
  · rintro ⟨rest, rfl, rfl, known⟩
    obtain ⟨spec, meant⟩ := Option.isSome_iff_exists.mp known
    rw [(strip_prefix_iff _ _ _).mpr rfl]
    simp only [Option.bind_eq_bind, Option.bind_some, meant, Option.pure_def, looked_up_name meant]

theorem meant_of_canonical {raw name : String} (found : canonicalName? raw = some name) :
    isKnown name = true ∧ Spells raw name := by
  unfold canonicalName? at found
  split at found
  · rename_i known
    cases found
    exact ⟨known, .own raw⟩
  · split at found
    · rename_i target listed
      obtain ⟨spec, meant, rfl⟩ := Option.map_eq_some_iff.mp found
      have own := looked_up_name meant
      rw [own]
      exact ⟨Option.isSome_of_mem meant, .older (listed_of_lookup listed)⟩
    · obtain ⟨group, member, found⟩ := List.exists_of_findSome?_eq_some found
      obtain ⟨rest, rfl, rfl, known⟩ := (found_in_namespace group raw name).mp found
      rw [← flat_joined (namespaces_have_no_dot group member)]
      exact ⟨known, .flat _⟩

section

variable {group rest : String} (member : group ∈ namespaces)

include member

theorem flat_is_unknown : ¬ isKnown (group ++ "_" ++ rest) = true := by
  intro known
  obtain ⟨other, member', rest', same⟩ :=
    Analysis.known_is_joined ((is_known_iff _).mp known)
  exact absurd (same_namespace member member' (by decide) same).2 (by decide)

theorem flat_is_no_alias (known : isKnown (joinName group rest) = true) :
    aliases.lookup (group ++ "_" ++ rest) = none := by
  rw [Option.eq_none_iff_forall_not_mem]
  intro target found
  have notFlat := aliases_are_not_flat _ (listed_of_lookup found) group member
  rw [(strip_prefix_iff _ _ _).mpr rfl, Option.all_some, known] at notFlat
  contradiction

/- Of the namespaces only its own one finds something. -/
theorem flat_is_canonical (known : isKnown (joinName group rest) = true) :
    canonicalName? (group ++ "_" ++ rest) = some (joinName group rest) := by
  rw [canonicalName?, if_neg (flat_is_unknown member), flat_is_no_alias member known]
  apply found_of_only member ((found_in_namespace _ _ _).mpr ⟨rest, rfl, rfl, known⟩)
  intro other member' name found
  obtain ⟨rest', text, rfl, -⟩ := (found_in_namespace _ _ _).mp found
  obtain ⟨rfl, -⟩ := same_namespace member member' (by decide) text
  have equal : rest = rest' := by simpa using text
  rw [equal]

end

/-- A spelling means at most one feature, and the feature's own name, the older names and the flat
one are all the spellings that it has. -/
theorem canonical_iff (raw name : String) :
    canonicalName? raw = some name ↔ isKnown name = true ∧ Spells raw name := by
  constructor
  · exact meant_of_canonical
  · rintro ⟨known, spelled⟩
    cases spelled with
    | own => rw [canonicalName?, if_pos known]
    | older listed => exact aliases_mean_features _ listed
    | flat =>
      obtain ⟨group, member, rest, rfl⟩ :=
        Analysis.known_is_joined ((is_known_iff name).mp known)
      rw [flat_joined (namespaces_have_no_dot group member)]
      exact flat_is_canonical member known

end Authorship.Feature
