import Authorship.Path
import Authorship.Text.Utf8

/- A tree of files and directories, and paths that lead through it. -/
namespace Authorship.Command

inductive Entry where
  | file (bytes : List UInt8)
  | directory (children : List (String × Entry))
deriving Inhabited

inductive DiskError where
  | notFound
  | alreadyExists
  | notADirectory
  | isADirectory
deriving DecidableEq, Repr

def DiskError.message : DiskError → String
  | .notFound => "No such file or directory (os error 2)"
  | .alreadyExists => "File exists (os error 17)"
  | .notADirectory => "Not a directory (os error 20)"
  | .isADirectory => "Is a directory (os error 21)"

def setChild (name : String) (entry : Entry) : List (String × Entry) → List (String × Entry)
  | [] => [(name, entry)]
  | (n, e) :: rest =>
    if n = name then (name, entry) :: rest else (n, e) :: setChild name entry rest

namespace Entry

def empty : Entry := .directory []

def isDirectory : Entry → Bool
  | .directory _ => true
  | .file _ => false

def children : Entry → List (String × Entry)
  | .directory children => children
  | .file _ => []

def bytes? : Entry → Option (List UInt8)
  | .file bytes => some bytes
  | .directory _ => none

def find? (entry : Entry) : List String → Option Entry
  | [] => some entry
  | name :: names => (entry.children.lookup name).bind (·.find? names)

def put (new : Entry) : List String → Entry → Entry
  | [], _ => new
  | name :: names, entry =>
    let child := (entry.children.lookup name).getD empty
    .directory (setChild name (put new names child) entry.children)

end Entry

structure Disk where
  root : Entry
  current : List String
  mount : String

namespace Disk

def find? (d : Disk) (names : List String) : Option Entry := d.root.find? names

/-- One piece further. Only a directory can be left, even for the place where one is. -/
def step (d : Disk) (names : List String) (piece : String) : Except DiskError (List String) :=
  match d.find? names with
  | none => .error .notFound
  | some (.file _) => .error .notADirectory
  | some (.directory children) =>
    if piece = "" || piece = "." then .ok names
    else if piece = ".." then .ok names.dropLast
    else if (children.lookup piece).isSome then .ok (names ++ [piece])
    else .error .notFound

def pieces (path : String) : List String :=
  (Text.splitOn '/' path.toList).map String.ofList

def outset (d : Disk) (path : String) : List String × List String :=
  match pieces path with
  | "" :: rest => ([], rest)
  | all => (d.current, all)

def follow (d : Disk) (start rest : List String) : Except DiskError (List String) :=
  rest.foldlM d.step start

def resolve (d : Disk) (path : String) : Except DiskError (List String) :=
  if path.isEmpty then .error .notFound
  else
    let (start, rest) := d.outset path
    d.follow start rest

def entry? (d : Disk) (path : String) : Option Entry :=
  (d.resolve path).toOption.bind d.find?

def isDirectory (d : Disk) (path : String) : Bool := (d.entry? path).any (·.isDirectory)

def bytes? (d : Disk) (path : String) : Option (List UInt8) := (d.entry? path).bind (·.bytes?)

def text? (d : Disk) (path : String) : Option String := (d.bytes? path).bind Text.strict?

def absoluteName (d : Disk) (names : List String) : String :=
  if names.isEmpty && d.mount.isEmpty then "/"
  else d.mount ++ String.join (names.map ("/" ++ ·))

def put (d : Disk) (entry : Entry) (names : List String) : Disk :=
  { d with root := Entry.put entry names d.root }

/-- Writes a file where its directory is there and no directory stands in its place. A name that
a slash follows can only be a directory's. -/
def write (d : Disk) (path text : String) : Except DiskError Disk := do
  if path.isEmpty then throw .notFound
  let (start, rest) := d.outset path
  let named := (rest.reverse.dropWhile (· = "")).reverse
  let last := named.getLast?.getD ""
  let place ← d.follow start named.dropLast
  let here ← d.step place "."
  if named.length < rest.length || last = "" || last = "." || last = ".." then throw .isADirectory
  let names := here ++ [last]
  if (d.find? names).any (·.isDirectory) then throw .isADirectory
  return d.put (.file text.toUTF8.toList) names

def makeDirectories (d : Disk) (names : List String) : List String → Except DiskError Disk
  | [] => .ok d
  | piece :: rest =>
    match d.step names piece with
    | .ok next =>
      if (d.find? next).any (·.isDirectory) then d.makeDirectories next rest
      else if rest.isEmpty then .error .alreadyExists
      else .error .notADirectory
    | .error .notFound => (d.put .empty (names ++ [piece])).makeDirectories (names ++ [piece]) rest
    | .error e => .error e

/-- The pieces without those at the end that lead nowhere. -/
def withoutIdleEnd (pieces : List String) : List String :=
  (pieces.reverse.dropWhile fun piece => piece = "" || piece = ".").reverse

def parent? (path : String) : Option String :=
  let all := pieces path
  match withoutIdleEnd (withoutIdleEnd all).dropLast with
  | [] => if all.head? = some "" then some "/" else if all.head? = some "." then some "." else none
  | before => some (String.intercalate "/" before)

def createParent (d : Disk) (path : String) : Except (String × DiskError) Disk :=
  match parent? path with
  | none => .ok d
  | some parent =>
    let (start, rest) := d.outset parent
    match d.makeDirectories start (withoutIdleEnd rest) with
    | .ok d => .ok d
    | .error e => .error (parent, e)

end Disk

end Authorship.Command
