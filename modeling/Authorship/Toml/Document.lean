import Authorship.Toml.Value

/-
How the statements of a document build its tables. A table is opened once, a key is given once, and
a table that a dotted key made is not opened by a header nor one that a header opened extended by a
dotted key.
-/
namespace Authorship.Toml

inductive Statement where
  | assign (path : List String) (key : String) (value : Value)
  | openTable (path : List String) (key : String)
  | openRow (path : List String) (key : String)

def put (key : String) (item : Item) : Entries → Entries
  | [] => [(key, item)]
  | (k, i) :: rest => if k = key then (k, item) :: rest else (k, i) :: put key item rest

/-- Changes the table at the end of a path. Tables that are missing on the way are made, and a path
through rows leads into the last of them. -/
def changeAt (made : Origin) (change : Origin → Entries → Option Entries) :
    List String → Origin → Entries → Option Entries
  | [], origin, entries => change origin entries
  | key :: path, _, entries =>
    match entries.lookup key with
    | none => do
      let inner ← changeAt made change path made []
      return put key (.table made inner) entries
    | some (.table origin inner) =>
      if made = .dotted && origin = .header then none
      else do
        let inner ← changeAt made change path origin inner
        return put key (.table origin inner) entries
    | some (.rows tables) =>
      match tables.getLast? with
      | none => none
      | some last => do
        let inner ← changeAt made change path .header last
        return put key (.rows (tables.dropLast ++ [inner])) entries
    | some (.value _) => none

/-- A path that is not empty must end in a table that dotted keys made. -/
def assignIn (path : List String) (key : String) (value : Value) (origin : Origin)
    (entries : Entries) : Option Entries :=
  if !path.isEmpty && origin != .dotted then none
  else if (entries.lookup key).isSome then none
  else some (entries ++ [(key, .value value)])

def openTableIn (key : String) (_ : Origin) (entries : Entries) : Option Entries :=
  match entries.lookup key with
  | none => some (entries ++ [(key, .table .header [])])
  | some (.table .implied inner) => some (put key (.table .header inner) entries)
  | some _ => none

def openRowIn (key : String) (_ : Origin) (entries : Entries) : Option Entries :=
  match entries.lookup key with
  | none => some (entries ++ [(key, .rows [[]])])
  | some (.rows tables) => some (put key (.rows (tables ++ [[]])) entries)
  | some _ => none

structure Draft where
  root : Entries
  header : List String

def Draft.empty : Draft := ⟨[], []⟩

def Draft.add (d : Draft) : Statement → Option Draft
  | .assign path key value => do
    let root ← changeAt .implied
      (changeAt .dotted (assignIn path key value) path) d.header .header d.root
    return { d with root }
  | .openTable path key => do
    let root ← changeAt .implied (openTableIn key) path .header d.root
    return ⟨root, path ++ [key]⟩
  | .openRow path key => do
    let root ← changeAt .implied (openRowIn key) path .header d.root
    return ⟨root, path ++ [key]⟩

def build (statements : List Statement) : Option Value := do
  let draft ← statements.foldlM Draft.add .empty
  return (Item.table .header draft.root).toValue

def buildInline (assignments : List (List String × String × Value)) : Option Value :=
  build (assignments.map fun (path, key, value) => .assign path key value)

end Authorship.Toml
