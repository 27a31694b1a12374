/-
Values under names, kept in the order of the names by code point, each name once.
-/
namespace Authorship

/-- A name that is there already gets the new value. -/
def insertEntry {α : Type} (name : String) (value : α) : List (String × α) → List (String × α)
  | [] => [(name, value)]
  | (n, v) :: rest =>
    if name < n then (name, value) :: (n, v) :: rest
    else if name = n then (name, value) :: rest
    else (n, v) :: insertEntry name value rest

def Ascending {α : Type} (entries : List (String × α)) : Prop :=
  entries.Pairwise fun a b => a.1 < b.1

structure Table (α : Type) where
  entries : List (String × α)
  ascending : Ascending entries

variable {α : Type}

theorem mem_insert_entry {name : String} {value : α} {entry : String × α}
    {entries : List (String × α)} (member : entry ∈ insertEntry name value entries) :
    entry = (name, value) ∨ entry ∈ entries := by
  induction entries with
  | nil => exact Or.inl (by simpa [insertEntry] using member)
  | cons head rest ih =>
    obtain ⟨n, v⟩ := head
    simp only [insertEntry] at member
    split at member
    · simpa using member
    · split at member
      · rcases List.mem_cons.mp member with h | h
        · exact Or.inl h
        · exact Or.inr (List.mem_cons_of_mem _ h)
      · rcases List.mem_cons.mp member with h | h
        · exact Or.inr (h ▸ List.mem_cons_self)
        · exact (ih h).imp_right (List.mem_cons_of_mem _)

theorem name_after {a b : String} (before : ¬ a < b) (other : a ≠ b) : b < a := by
  have h : b ≤ a := String.not_lt.mp before
  exact Std.lt_of_le_of_ne h (Ne.symm other)

theorem insert_entry_ascending (name : String) (value : α) (entries : List (String × α))
    (sorted : Ascending entries) : Ascending (insertEntry name value entries) := by
  induction entries with
  | nil => exact List.pairwise_singleton _ _
  | cons head rest ih =>
    obtain ⟨n, v⟩ := head
    have parts := List.pairwise_cons.mp sorted
    simp only [insertEntry]
    split
    · rename_i first
      refine List.pairwise_cons.mpr ⟨?_, sorted⟩
      intro entry member
      rcases List.mem_cons.mp member with h | h
      · exact h ▸ first
      · exact String.lt_trans first (parts.1 entry h)
    · split
      · rename_i same
        exact List.pairwise_cons.mpr ⟨fun entry h => same ▸ parts.1 entry h, parts.2⟩
      · rename_i later other
        refine List.pairwise_cons.mpr ⟨?_, ih parts.2⟩
        intro entry member
        rcases mem_insert_entry member with h | h
        · exact h ▸ name_after later other
        · exact parts.1 entry h

namespace Table

def empty : Table α := ⟨[], List.Pairwise.nil⟩

instance : Inhabited (Table α) := ⟨empty⟩

def insert (t : Table α) (name : String) (value : α) : Table α :=
  ⟨insertEntry name value t.entries, insert_entry_ascending name value t.entries t.ascending⟩

def get? (t : Table α) (name : String) : Option α := t.entries.lookup name

def contains (t : Table α) (name : String) : Bool := (t.get? name).isSome

def size (t : Table α) : Nat := t.entries.length

def isEmpty (t : Table α) : Bool := t.entries.isEmpty

def names (t : Table α) : List String := t.entries.map (·.1)

def ofList (entries : List (String × α)) : Table α :=
  entries.foldl (fun t entry => t.insert entry.1 entry.2) empty

def update (t : Table α) (name : String) (f : Option α → α) : Table α :=
  t.insert name (f (t.get? name))

end Table

end Authorship
