import Authorship.Decimal.Literal

/- TOML values, and the tree of tables that a document describes. -/
namespace Authorship.Toml

inductive Value where
  | text (s : String)
  | int (n : Int)
  | real (x : Decimal.Literal)
  | bool (b : Bool)
  | moment
  | list (items : List Value)
  | table (entries : List (String × Value))
deriving Inhabited

/-- How a table came to be: by its own header, as a step on the way to a longer header, or by a
dotted key. -/
inductive Origin where
  | header
  | implied
  | dotted
deriving DecidableEq, Repr

inductive Item where
  | value (v : Value)
  | table (origin : Origin) (entries : List (String × Item))
  | rows (tables : List (List (String × Item)))
deriving Inhabited

abbrev Entries := List (String × Item)

mutual

def Item.toValue : Item → Value
  | .value v => v
  | .table _ entries => .table (entriesToValues entries)
  | .rows tables => .list (rowsToValues tables)

def entriesToValues : List (String × Item) → List (String × Value)
  | [] => []
  | (key, item) :: entries => (key, item.toValue) :: entriesToValues entries

def rowsToValues : List (List (String × Item)) → List Value
  | [] => []
  | table :: tables => .table (entriesToValues table) :: rowsToValues tables

end

end Authorship.Toml
