import Authorship.Proofs.JsonText

/-
The members of an object in the order in which its text lists them. An object is read as the table
of its members, so what is read does not depend on that order, unless a key comes twice and its
values change places.
-/
namespace Authorship.Json

inductive ReadsMember (turns depth : Nat) : List Char → String × Value → List Char → Prop
  | read {cs text afterKey rest after key : List Char} {v : Value}
      (opens : skipSpace cs = '"' :: text) (named : readText text = some (key, afterKey))
      (colon : skipSpace afterKey = ':' :: rest)
      (valued : readValue turns depth rest = some (v, after)) :
      ReadsMember turns depth cs (String.ofList key, v) after

/-- Members with commas between them, up to what stands after the closing brace. -/
inductive ReadsMembers (depth : Nat) :
    Nat → List Char → List (String × Value) → List Char → Prop
  | last {turns : Nat} {cs after rest : List Char} {member : String × Value}
      (reads : ReadsMember turns depth cs member after)
      (closes : skipSpace after = '}' :: rest) : ReadsMembers depth (turns + 1) cs [member] rest
  | more {turns : Nat} {cs after next rest : List Char} {member : String × Value}
      {members : List (String × Value)} (reads : ReadsMember turns depth cs member after)
      (goesOn : skipSpace after = ',' :: next)
      (others : ReadsMembers depth turns next members rest) :
      ReadsMembers depth (turns + 1) cs (member :: members) rest

def entered (before members : List (String × Value)) : List (String × Value) :=
  members.foldl (fun entries member => insertEntry member.1 member.2 entries) before

theorem table_of_members (members : List (String × Value)) :
    (Table.ofList members).entries = entered [] members := by
  have folded (t : Table Value) :
      (members.foldl (fun t entry => t.insert entry.1 entry.2) t).entries =
        entered t.entries members := by
    induction members generalizing t with
    | nil => rfl
    | cons member rest ih => exact ih (t.insert member.1 member.2)
  exact folded Table.empty

theorem entries_of_member {turns depth : Nat} {cs after : List Char} {member : String × Value}
    (reads : ReadsMember turns depth cs member after) (before : List (String × Value)) :
    readEntries (turns + 1) depth before cs =
      match skipSpace after with
      | '}' :: rest => some (insertEntry member.1 member.2 before, rest)
      | ',' :: rest => readEntries turns depth (insertEntry member.1 member.2 before) rest
      | _ => none := by
  cases reads with
  | read opens named colon valued =>
    rw [readEntries, opens]
    simp only [named, colon, valued, Option.bind_eq_bind, Option.bind_some]
    rfl

theorem entries_of_members {turns depth : Nat} {cs rest : List Char}
    {members : List (String × Value)} (reads : ReadsMembers depth turns cs members rest)
    (before : List (String × Value)) :
    readEntries turns depth before cs = some (entered before members, rest) := by
  induction reads generalizing before with
  | last reads closes =>
    rw [entries_of_member reads, closes]
    rfl
  | more reads goesOn others ih =>
    rw [entries_of_member reads, goesOn]
    exact ih _

/- Whatever is read begins with a member. -/
theorem member_of_entries {turns depth : Nat} {before entries : List (String × Value)}
    {cs rest : List Char}
    (read : readEntries (turns + 1) depth before cs = some (entries, rest)) :
    ∃ member after, ReadsMember turns depth cs member after := by
  rw [readEntries] at read
  split at read
  · rename_i text opens
    obtain ⟨⟨key, afterKey⟩, named, read⟩ := Option.bind_eq_some_iff.mp read
    simp only at read
    split at read
    · rename_i colonRest colon
      obtain ⟨⟨v, after⟩, valued, -⟩ := Option.bind_eq_some_iff.mp read
      exact ⟨_, after, .read opens named colon valued⟩
    · contradiction
  · contradiction

theorem members_of_entries {turns depth : Nat} {before entries : List (String × Value)}
    {cs rest : List Char} (read : readEntries turns depth before cs = some (entries, rest)) :
    ∃ members, ReadsMembers depth turns cs members rest ∧ entries = entered before members := by
  induction turns generalizing before cs with
  | zero =>
    rw [readEntries] at read
    contradiction
  | succ turns ih =>
    obtain ⟨member, after, reads⟩ := member_of_entries read
    rw [entries_of_member reads] at read
    split at read
    · rename_i closing closes
      obtain ⟨rfl, rfl⟩ := Prod.mk.inj (Option.some.inj read)
      exact ⟨[member], .last reads closes, rfl⟩
    · rename_i next goesOn
      obtain ⟨members, others, rfl⟩ := ih read
      exact ⟨member :: members, .more reads goesOn others, rfl⟩
    · contradiction

/-- The text of one object with these members, in this order. -/
inductive ListsMembers (text : String) : List (String × Value) → Prop
  | none {cs rest : List Char} (opens : skipSpace text.toList = '{' :: cs)
      (closes : skipSpace cs = '}' :: rest) (ends : skipSpace rest = []) : ListsMembers text []
  | some {cs rest : List Char} {members : List (String × Value)}
      (opens : skipSpace text.toList = '{' :: cs)
      (reads : ReadsMembers (depthLimit - 1) text.toList.length cs members rest)
      (ends : skipSpace rest = []) : ListsMembers text members

/- What begins with a brace is an object, and nothing else is one. -/

theorem number_is_no_object {t : NumberText} {v : Value} (valued : t.value = some v)
    (entries : List (String × Value)) : v ≠ .object entries := by
  rintro rfl
  simp only [NumberText.value] at valued
  split at valued
  · split at valued
    · simp at valued
    · split at valued
      · cases valued
      · split at valued <;> cases valued
  · simp at valued

theorem number_text_is_no_object {cs rest : List Char} (entries : List (String × Value)) :
    readNumber cs ≠ some (.object entries, rest) := by
  intro read
  rw [read_number_parts, readUnsigned] at read
  split at read
  · contradiction
  · contradiction
  · obtain ⟨places, -, read⟩ := Option.bind_eq_some_iff.mp read
    obtain ⟨exponent, -, read⟩ := Option.bind_eq_some_iff.mp read
    obtain ⟨v, valued, same⟩ := Option.bind_eq_some_iff.mp read
    exact number_is_no_object valued entries (Prod.mk.inj (Option.some.inj same)).1

theorem value_is_object {turns depth : Nat} {cs rest : List Char}
    {entries : List (String × Value)}
    (read : readValue (turns + 1) (depth + 1) cs = some (.object entries, rest)) :
    ∃ inner, skipSpace cs = '{' :: inner ∧
      (skipSpace inner = '}' :: rest ∧ entries = [] ∨
        readEntries turns depth [] inner = some (entries, rest)) := by
  rw [readValue] at read
  split at read
  · contradiction
  · rename_i c inner opens
    split at read
    · obtain ⟨_, -, same⟩ := Option.map_eq_some_iff.mp read
      cases same
    · simp only at read
      split at read
      · cases read
      · obtain ⟨_, -, same⟩ := Option.map_eq_some_iff.mp read
        cases same
    · refine ⟨inner, opens, ?_⟩
      simp only at read
      split at read
      · rename_i closes
        cases read
        exact Or.inl ⟨closes, rfl⟩
      · obtain ⟨_, found, same⟩ := Option.map_eq_some_iff.mp read
        cases same
        rw [read_entries_skip] at found
        exact Or.inr found
    · obtain ⟨_, -, same⟩ := Option.map_eq_some_iff.mp read
      cases same
    · obtain ⟨_, -, same⟩ := Option.map_eq_some_iff.mp read
      cases same
    · obtain ⟨_, -, same⟩ := Option.map_eq_some_iff.mp read
      cases same
    · exact absurd read (number_text_is_no_object entries)

theorem object_is_value {turns depth : Nat} {cs inner rest : List Char}
    {members : List (String × Value)} (opens : skipSpace cs = '{' :: inner)
    (reads : ReadsMembers depth turns inner members rest) :
    readValue (turns + 1) (depth + 1) cs = some (.object (entered [] members), rest) := by
  have found := entries_of_members reads []
  have notClosed (after : List Char) : skipSpace inner ≠ '}' :: after := by
    intro closes
    cases reads with
    | last reads _ =>
      cases reads with
      | read quote =>
        rw [quote] at closes
        exact absurd (List.cons.inj closes).1 (by decide)
    | more reads _ _ =>
      cases reads with
      | read quote =>
        rw [quote] at closes
        exact absurd (List.cons.inj closes).1 (by decide)
  rw [← read_value_skip, opens, read_object turns depth notClosed, found]
  rfl

theorem empty_object_is_value {turns depth : Nat} {cs inner rest : List Char}
    (opens : skipSpace cs = '{' :: inner) (closes : skipSpace inner = '}' :: rest) :
    readValue (turns + 1) (depth + 1) cs = some (.object [], rest) := by
  rw [readValue, opens]
  simp only [closes]

theorem read_chars_iff (cs : List Char) (v : Value) :
    readChars cs = some v ↔
      ∃ rest, readValue (cs.length + 1) depthLimit cs = some (v, rest) ∧ skipSpace rest = [] := by
  unfold readChars
  constructor
  · intro read
    split at read
    · rename_i found
      split at read
      · rename_i ends
        cases read
        exact ⟨_, found, List.isEmpty_iff.mp ends⟩
      · contradiction
    · contradiction
  · rintro ⟨rest, found, ends⟩
    rw [found]
    simp only [ends, List.isEmpty_nil, if_true]

/-- A text is read as an object exactly if it lists members, and what is read is their table. -/
theorem object_text_iff (text : String) (entries : List (String × Value)) :
    read text = some (.object entries) ↔
      ∃ members, ListsMembers text members ∧ entries = (Table.ofList members).entries := by
  have depth : depthLimit = depthLimit - 1 + 1 := rfl
  unfold read
  rw [read_chars_iff, depth]
  constructor
  · rintro ⟨rest, found, ends⟩
    obtain ⟨inner, opens, ⟨closes, rfl⟩ | read⟩ := value_is_object found
    · exact ⟨[], .none opens closes ends, rfl⟩
    · obtain ⟨members, reads, rfl⟩ := members_of_entries read
      exact ⟨members, .some opens reads ends, (table_of_members members).symm⟩
  · rintro ⟨members, lists, rfl⟩
    rw [table_of_members]
    cases lists with
    | none opens closes ends => exact ⟨_, empty_object_is_value opens closes, ends⟩
    | some opens reads ends => exact ⟨_, object_is_value opens reads, ends⟩

/- A written object lists what was written, in that order. -/

theorem written_member {turns depth : Nat} (layout : Layout) (key : String)
    {text more : List Char} {v : Value}
    (read : readValue turns depth (text ++ more) = some (v, more)) :
    ReadsMember turns depth (quoted key ++ (layout.colon ++ (text ++ more))) (key, v) more := by
  obtain ⟨cs, colon, valued⟩ := read_behind_colon layout read
  have named := read_escaped_text key.toList (layout.colon ++ (text ++ more))
  have opens : skipSpace (quoted key ++ (layout.colon ++ (text ++ more))) =
      '"' :: (key.toList.flatMap escape ++ '"' :: (layout.colon ++ (text ++ more))) := by
    rw [quoted, List.cons_append, List.cons_append, List.append_assoc,
      skip_space_cons _ (by decide)]
    rfl
  have member := ReadsMember.read opens named colon valued
  rwa [String.ofList_toList] at member

theorem members_behind_newline {turns depth : Nat} {cs rest : List Char}
    {members : List (String × Value)} (layout : Layout)
    (reads : ReadsMembers depth turns cs members rest) :
    ReadsMembers depth turns (layout.newline ++ cs) members rest := by
  have first {turns : Nat} {member : String × Value} {after : List Char}
      (reads : ReadsMember turns depth cs member after) :
      ReadsMember turns depth (layout.newline ++ cs) member after := by
    cases reads with
    | read opens named colon valued =>
      exact .read ((skip_newline layout cs).trans opens) named colon valued
  cases reads with
  | last reads closes => exact .last (first reads) closes
  | more reads goesOn others => exact .more (first reads) goesOn others

theorem written_members {turns depth : Nat} (layout : Layout) {closing rest : List Char}
    (ends : EndsNumber closing) (closes : skipSpace closing = '}' :: rest)
    (entry : String × Value) (entries : List (String × Value))
    (legible : LegibleEntries depth (entry :: entries))
    (enough : (entriesText layout (entry :: entries)).length + 1 < turns) :
    ReadsMembers depth turns (entriesText layout (entry :: entries) ++ closing)
      ((entry :: entries).map fun entry => (entry.1, readBack entry.2)) rest := by
  obtain ⟨turns, rfl⟩ : ∃ t, turns = t + 1 := ⟨turns - 1, by omega⟩
  induction entries generalizing entry turns with
  | nil =>
    obtain ⟨key, v⟩ := entry
    rw [LegibleEntries] at legible
    simp only [entriesText, List.length_append] at enough
    have read := read_written_value turns depth v layout closing legible.1 (by omega) ends
    simp only [entriesText, writeEntries, List.append_nil, List.append_assoc]
    exact .last (written_member layout key read) closes
  | cons next entries ih =>
    obtain ⟨key, v⟩ := entry
    rw [LegibleEntries] at legible
    rw [entriesText, write_entries] at enough
    simp only [List.length_append, List.length_cons] at enough
    have goesOn : skipSpace (writeEntries layout (next :: entries) ++ closing) =
        ',' :: (layout.newline ++ (entriesText layout (next :: entries) ++ closing)) := by
      rw [write_entries, List.cons_append, List.append_assoc, skip_space_cons _ (by decide)]
    have read := read_written_value turns depth v layout
      (writeEntries layout (next :: entries) ++ closing) legible.1 (by omega)
      (by rw [write_entries]; exact ends_of_head (by simp [InNumber]))
    obtain ⟨turns, rfl⟩ : ∃ t, turns = t + 1 := ⟨turns - 1, by omega⟩
    have others := ih next legible.2 turns (by omega)
    simp only [entriesText, List.append_assoc]
    exact .more (written_member layout key read) goesOn (members_behind_newline layout others)

theorem written_object_lists (layout : Layout) {entries : List (String × Value)}
    (legible : Legible depthLimit (.object entries)) :
    ListsMembers (String.ofList (writeChars layout (.object entries)))
      (entries.map fun entry => (entry.1, readBack entry.2)) := by
  cases entries with
  | nil => exact .none (by rw [String.toList_ofList, writeChars]; rfl) rfl rfl
  | cons entry entries =>
    rw [Legible] at legible
    have opens : skipSpace (String.ofList (writeChars layout (.object (entry :: entries)))).toList =
        '{' :: (layout.deeper.newline ++ (entriesText layout.deeper (entry :: entries) ++
          (layout.newline ++ ['}']))) := by
      rw [String.toList_ofList, write_object, skip_space_cons _ (by decide)]
    have reads : ReadsMembers (depthLimit - 1)
        (String.ofList (writeChars layout (.object (entry :: entries)))).toList.length
        (layout.deeper.newline ++ (entriesText layout.deeper (entry :: entries) ++
          (layout.newline ++ ['}'])))
        ((entry :: entries).map fun entry => (entry.1, readBack entry.2)) [] := by
      apply members_behind_newline
      apply written_members layout.deeper (ends_of_newline layout (by simp [InNumber]))
        (skip_to_closer layout (by decide)) entry entries legible.2
      rw [String.toList_ofList, write_object]
      simp only [List.length_cons, List.length_append]
      omega
    exact .some opens reads rfl

/-- The same members in another order, in which those under one key keep theirs. -/
def Rearranged (members others : List (String × Value)) : Prop :=
  ∀ key, members.filter (·.1 = key) = others.filter (·.1 = key)

/- Under different keys any order will do. -/
theorem rearranged_of_distinct {members others : List (String × Value)}
    (perm : members.Perm others) (distinct : (members.map (·.1)).Nodup) :
    Rearranged members others := by
  intro key
  have names : (members.filter (·.1 = key)).map (·.1) =
      List.replicate (members.filter (·.1 = key)).length key := by
    rw [List.eq_replicate_iff, List.length_map]
    refine ⟨rfl, ?_⟩
    simp
  have once : (List.replicate (members.filter (·.1 = key)).length key).Nodup :=
    names ▸ distinct.sublist (List.filter_sublist.map _)
  have alike := perm.filter (·.1 = key)
  rcases found : members.filter (·.1 = key) with _ | ⟨member, _ | ⟨next, more⟩⟩
  · rw [found] at alike ⊢
    exact alike.nil_eq
  · rw [found] at alike ⊢
    exact List.singleton_perm.mp alike
  · rw [found, List.nodup_replicate] at once
    simp at once

end Authorship.Json
