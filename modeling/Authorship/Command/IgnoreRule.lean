import Authorship.Command.Glob
import Authorship.Text.Lines
import Authorship.Text.Utf8

/- The rules of a file that says what to pass over, a pattern on each line. -/
namespace Authorship.Command

structure IgnoreRule where
  glob : Glob
  isException : Bool
  directoriesOnly : Bool

/-- Without a slash in it a pattern matches at any depth. -/
def anchored (isAnchored : Bool) (pattern : List Char) : List Char :=
  if isAnchored || pattern.contains '/' || pattern = ['*', '*'] then pattern
  else "**/".toList ++ pattern

/-- What matches everything below a directory does not match the directory. -/
def belowOnly (pattern : List Char) : List Char :=
  if "/**".toList.isSuffixOf pattern then pattern ++ "/*".toList else pattern

def withoutLastSlash (pattern : List Char) : List Char × Bool :=
  match pattern.reverse with
  | '/' :: '\\' :: rest => (rest.reverse, true)
  | '/' :: rest => (rest.reverse, true)
  | _ => (pattern, false)

/-- A blank at the end counts only behind a backslash. -/
def trimmedRule (line : List Char) : List Char :=
  if ['\\', ' '].isSuffixOf line then line else Text.trimEnd line

def IgnoreRule.ofLine (line : List Char) : Option IgnoreRule :=
  let line := trimmedRule line
  if line.isEmpty || line.head? = some '#' then none
  else
    let isEscaped := ['\\', '!'].isPrefixOf line || ['\\', '#'].isPrefixOf line
    let isException := !isEscaped && line.head? = some '!'
    let pattern := if isEscaped || isException then line.tail else line
    let isAnchored := pattern.head? = some '/'
    let pattern := if isAnchored && !isEscaped then pattern.tail else pattern
    let (pattern, directoriesOnly) := withoutLastSlash pattern
    (Glob.read (belowOnly (anchored isAnchored pattern))).map fun glob =>
      ⟨glob, isException, directoriesOnly⟩

def byteOrderMark : Char := '\uFEFF'

def validLines (bytes : List UInt8) : List (List Char) :=
  let decoded := Text.decodeUtf8 bytes
  let valid := (decoded.takeWhile (·.isSome)).filterMap id
  if valid.length = decoded.length then Text.lines valid
  else Text.lines (valid.reverse.dropWhile (· != '\n')).reverse

abbrev IgnoreRules := List IgnoreRule

def IgnoreRules.ofBytes (bytes : List UInt8) : IgnoreRules :=
  match validLines bytes with
  | [] => []
  | first :: rest =>
    (first.dropWhile (· = byteOrderMark) :: rest).filterMap IgnoreRule.ofLine

inductive Ruling where
  | ignored
  | kept
deriving DecidableEq, Repr

def IgnoreRule.matches (r : IgnoreRule) (path : List Char) (isDirectory : Bool) : Bool :=
  (!r.directoriesOnly || isDirectory) && r.glob.accepts path

def IgnoreRules.ruling? (rules : IgnoreRules) (path : List Char) (isDirectory : Bool) :
    Option Ruling :=
  (rules.reverse.find? (·.matches path isDirectory)).map fun r =>
    if r.isException then .kept else .ignored

end Authorship.Command
