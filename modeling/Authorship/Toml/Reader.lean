import Authorship.Toml.Document
import Authorship.Toml.Scalar

/- Reading TOML text. -/
namespace Authorship.Toml

def isBareKey (c : Char) : Bool := c.isAlphanum || c = '_' || c = '-'

def readSimpleKey (cs : Rest) : Option (String × Rest) :=
  match cs with
  | '"' :: rest => (readBasic rest).map fun (key, rest) => (String.ofList key, rest)
  | '\'' :: rest => (readLiteral rest).map fun (key, rest) => (String.ofList key, rest)
  | _ =>
    match cs.takeWhile isBareKey with
    | [] => none
    | key => some (String.ofList key, cs.drop key.length)

/-- Tables and lists may stand inside one another less than this deep, and a key has fewer parts
than this. -/
def depthLimit : Nat := 80

def readKeyParts (turns : Nat) (cs : Rest) : Option (List String × Rest) :=
  match turns with
  | 0 => none
  | turns + 1 => do
    let (part, rest) ← readSimpleKey (skipSpace cs)
    match skipSpace rest with
    | '.' :: rest => do
      let (parts, rest) ← readKeyParts turns rest
      return (part :: parts, rest)
    | rest => return ([part], rest)

def readKey (cs : Rest) : Option ((List String × String) × Rest) := do
  let (parts, rest) ← readKeyParts (depthLimit - 1) cs
  let last ← parts.getLast?
  return ((parts.dropLast, last), rest)

def skipComment (cs : Rest) : Rest :=
  match cs with
  | '#' :: rest => rest.dropWhile isPlain
  | _ => cs

def skipLines (turns : Nat) (cs : Rest) : Rest :=
  match turns with
  | 0 => cs
  | turns + 1 =>
    let rest := skipComment (skipSpace cs)
    if isLineBreak rest then skipLines turns (dropLineBreak rest)
    else if (skipSpace cs).head? = some '#' && !rest.isEmpty then skipSpace cs
    else rest

def skipBlankLines (cs : Rest) : Rest := skipLines (cs.length + 1) cs

mutual

/-- Every turn takes a character at least. -/
def readValue (turns depth : Nat) (cs : Rest) : Option (Value × Rest) :=
  match turns with
  | 0 => none
  | turns + 1 =>
    match cs with
    | '[' :: rest =>
      match depth with
      | 0 => none
      | depth + 1 => (readItems turns depth (skipBlankLines rest)).map fun (items, rest) =>
        (.list items, rest)
    | '{' :: rest =>
      match depth with
      | 0 => none
      | depth + 1 =>
        match skipSpace rest with
        | '}' :: rest => some (.table [], rest)
        | rest => do
          let (assignments, rest) ← readAssignments turns depth rest
          return (← buildInline assignments, rest)
    | _ => firstOf [readString, readBool, readNumber] cs

def readItems (turns depth : Nat) (cs : Rest) : Option (List Value × Rest) :=
  match turns with
  | 0 => none
  | turns + 1 =>
    match cs with
    | ']' :: rest => some ([], rest)
    | _ => do
      let (item, rest) ← readValue turns depth cs
      match skipBlankLines rest with
      | ']' :: rest => return ([item], rest)
      | ',' :: rest =>
        let (items, rest) ← readItems turns depth (skipBlankLines rest)
        return (item :: items, rest)
      | _ => none

/-- The assignments of an inline table, which stays on its line and has no comma at its end. -/
def readAssignments (turns depth : Nat) (cs : Rest) :
    Option (List (List String × String × Value) × Rest) :=
  match turns with
  | 0 => none
  | turns + 1 => do
    let ((path, key), rest) ← readKey cs
    let rest ← expect '=' rest
    let (value, rest) ← readValue turns depth (skipSpace rest)
    match skipSpace rest with
    | '}' :: rest => return ([(path, key, value)], rest)
    | ',' :: rest =>
      let (assignments, rest) ← readAssignments turns depth rest
      return ((path, key, value) :: assignments, rest)
    | _ => none

end

def readAssignment (cs : Rest) : Option (Statement × Rest) := do
  let ((path, key), rest) ← readKey cs
  let rest ← expect '=' rest
  let value := skipSpace rest
  let (value, rest) ← readValue (value.length + 1) (depthLimit - 1) value
  return (.assign path key value, rest)

def readHeader (cs : Rest) : Option (Statement × Rest) := do
  match cs with
  | '[' :: '[' :: cs =>
    let ((path, key), rest) ← readKey cs
    let rest ← expect ']' rest
    let rest ← expect ']' rest
    return (.openRow path key, rest)
  | '[' :: cs =>
    let ((path, key), rest) ← readKey cs
    let rest ← expect ']' rest
    return (.openTable path key, rest)
  | _ => none

def endLine (cs : Rest) : Option Rest :=
  let rest := skipComment (skipSpace cs)
  if rest.isEmpty then some []
  else if isLineBreak rest then some (dropLineBreak rest)
  else none

def readStatements (turns : Nat) (cs : Rest) : Option (List Statement) :=
  match turns with
  | 0 => none
  | turns + 1 =>
    match skipBlankLines cs with
    | [] => some []
    | cs => do
      let (statement, rest) ← if cs.head? = some '[' then readHeader cs else readAssignment cs
      let rest ← endLine rest
      let statements ← readStatements turns rest
      return statement :: statements

def byteOrderMark : Char := '\ufeff'

def read (text : String) : Option Value := do
  let cs := match text.toList with
    | c :: cs => if c = byteOrderMark then cs else c :: cs
    | [] => []
  build (← readStatements (cs.length + 1) cs)

end Authorship.Toml
