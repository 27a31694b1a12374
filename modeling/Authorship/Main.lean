import Authorship.Command.Footprint
import Authorship.Command.Run
import Authorship.Baseline.Instant
import Std.Time.DateTime.Timestamp

/- The program on the files of the machine. What a command can look at is copied to a `Disk`, the
command runs on that, and the file that it leaves there is written to the machine. -/
namespace Authorship.Main

open Command

def placeText (names : List String) : String := "/" ++ String.intercalate "/" names

def readFile? (names : List String) : IO (Option Entry) := do
  try
    return some (.file (← IO.FS.readBinFile (placeText names)).toList)
  catch _ => return none

def readNames? (names : List String) : IO (Option (List (String × Bool))) := do
  try
    let directory ← IO.FS.realPath (placeText names)
    let listed ← (← directory.readDir).toList.mapM fun entry => do
      match (← entry.path.symlinkMetadata).type with
      | .dir => return some (entry.fileName, true)
      | .file => return some (entry.fileName, false)
      | _ => return none
    return some (listed.filterMap id)
  catch _ => return none

partial def readTree (names : List String) : IO Entry := do
  let children ← ((← readNames? names).getD []).mapM fun (name, isDirectory) => do
    if isDirectory then return (name, ← readTree (names ++ [name]))
    else if isReadOnWalk name then
      return (name, (← readFile? (names ++ [name])).getD (.file []))
    else return (name, .file [])
  return .directory children

def copyFile (d : Disk) (names : List String) : IO Disk := do
  match ← readFile? names with
  | some entry => return d.put entry names
  | none => return d

def copyDirectory (d : Disk) (names : List String) : IO Disk := do
  return if (← readNames? names).isSome then d.put .empty names else d

def copyPlace (d : Disk) (names : List String) : IO Disk := do
  if (← readNames? names).isSome then
    let d ← repositoryEntries.foldlM (fun d name => copyDirectory d (names ++ [name]))
      (d.put .empty names)
    rulePlaces.foldlM (fun d place => copyFile d (names ++ place)) d
  else copyFile d names

/-- Copies what a path leads through, and gives back where it ends. -/
def copyWay (d : Disk) (names : List String) : List String → IO (Disk × Option (List String))
  | [] => return (d, some names)
  | piece :: rest => do
    match d.step names piece with
    | .ok next => copyWay d next rest
    | .error .notFound =>
      let d ← copyPlace d (names ++ [piece])
      match d.step names piece with
      | .ok next => copyWay d next rest
      | .error _ => return (d, none)
    | .error _ => return (d, none)

def copyPath (d : Disk) (path : String) : IO (Disk × Option (List String)) :=
  let (start, rest) := d.outset path
  copyWay d start rest

def copyTree (d : Disk) (path : String) : IO Disk := do
  match ← copyPath d path with
  | (d, some names) =>
    if (d.find? names).any (·.isDirectory) then return d.put (← readTree names) names
    else return d
  | (d, none) => return d

/-- A file is read even if a walk over its directory has left its bytes out. -/
def copyPathAndFile (d : Disk) (path : String) : IO Disk := do
  match ← copyPath d path with
  | (d, some names) => copyFile d names
  | (d, none) => return d

def copyLinked (d : Disk) (bytes : List UInt8) : IO Disk := do
  let common := (linkedPlace? bytes).map commonFileOf
  let d ← common.toList.foldlM copyPathAndFile d
  let exclude := (linkedRepository? d bytes).map excludeFileOf
  exclude.toList.foldlM copyPathAndFile d

def environment : IO Environment := do
  let now ← Std.Time.Timestamp.now
  let instant : Baseline.Instant := ⟨now.val.second.val, now.val.nano.val.toNat⟩
  return {
    statsPath := ← IO.getEnv "CODEORIGIN_BASELINE"
    configHome := userConfigHome (← IO.getEnv "XDG_CONFIG_HOME") (← IO.getEnv "HOME")
    now := instant.text }

def startingDisk : IO Disk := do
  let current := (Disk.pieces (← IO.currentDir).toString).filter (· != "")
  let root ← copyPlace ⟨.empty, [], ""⟩ []
  return { (← copyWay root [] current).1 with current }

def copyFor (env : Environment) (arguments : List String) : IO Disk := do
  let d ← startingDisk
  match parseArguments arguments with
  | some (.run config task) =>
    let d ← task.trees.foldlM copyTree d
    let d ← (repositoryLinks d.root).foldlM copyLinked d
    let d ← (settingsPaths env config).foldlM copyPathAndFile d
    (task.places env (loadSettings d env config)).foldlM copyPathAndFile d
  | _ => return d

def target? (arguments : List String) : Option String :=
  match parseArguments arguments with
  | some (.run _ task) => task.target?
  | _ => none

def keep (before after : Disk) (path : String) : IO Unit := do
  match after.bytes? path with
  | some bytes =>
    if before.bytes? path != some bytes then
      if let some parent := Disk.parent? path then IO.FS.createDirAll parent
      IO.FS.writeBinFile path ⟨bytes.toArray⟩
  | none => return

end Authorship.Main

open Authorship in
def main (arguments : List String) : IO UInt32 := do
  let env ← Main.environment
  let before ← Main.copyFor env arguments
  let outcome := Command.run before env arguments
  if let some path := Main.target? arguments then Main.keep before outcome.disk path
  IO.print outcome.output
  IO.eprint outcome.errors
  return outcome.exitCode.toUInt32
