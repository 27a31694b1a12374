import Authorship.Analysis.Basic

/- Repeated lines, repeated windows of lines, copied blocks and functions of one shape. -/
namespace Authorship.Analysis

open Pattern Scalar

/-- Stands for a line by the place where that line occurs first, so that comparing is cheap. The
numbers have no bound here. Narrowed to 32 bits, as the length of a table of lines can be, they
would be given again from 2 ^ 32 different lines on. -/
def intern (lines : List (List Char)) : List Nat := lines.map (lines.idxOf ·)

section

variable {β : Type} [DecidableEq β]

def extraOccurrences (xs : List β) : Nat := sumOf (xs.eraseDups.map fun x => xs.count x - 1)

def windows : List β → List (β × β × β)
  | a :: b :: c :: rest => (a, b, c) :: windows (b :: c :: rest)
  | _ => []

end

def duplicateLines (ids : List Nat) : Nat := extraOccurrences ids

def repeatedWindows (ids : List Nat) : Nat := extraOccurrences (windows ids)

/-- The most lines that a run of equal pairs and its copy cover together, at one distance. The two
overlap when the run is longer than the distance. -/
def coverageAt (distance run best : Nat) : List Nat → List Nat → Nat
  | a :: as, b :: bs =>
    if a = b then coverageAt distance (run + 1) (max best (run + 1 + min (run + 1) distance)) as bs
    else coverageAt distance 0 best as bs
  | _, _ => best

def longestBlockCoverage (ids : List Nat) : Nat :=
  ((List.range ids.length).drop 1).foldl
    (fun best distance => coverageAt distance 0 best ids (ids.drop distance)) 0

def repeatedStarts (ids : List Nat) : List Bool :=
  let all := windows ids
  all.map fun w => 1 < all.count w

/-- The positions that a window reaches, from flags that tell where the windows begin. `reach` is
how many positions the last window still covers. -/
def reachedFrom (reach : Nat) : List Bool → Nat
  | [] => reach
  | true :: flags => 1 + reachedFrom 2 flags
  | false :: flags => (if 0 < reach then 1 else 0) + reachedFrom (reach - 1) flags

/-- Lines inside any repeated window: the estimate for files too long to scan pairwise. The last
window ends with the file, so what it reaches beyond its start is there. -/
def windowCoverage (ids : List Nat) : Nat := reachedFrom 0 (repeatedStarts ids)

def bodyToken : Pattern :=
  oneOf
    [Lexicon.identifier,
      sequence [boundary, satisfying Text.isDecimalDigit, span isWordOrDot],
      blanks1]

def abstractToken (token : List Char) : List Char :=
  if token.all Text.isBlank then []
  else if token.head?.any Char.isDigit then ['N']
  else if Lexicon.isReserved token then token
  else ['I', 'D']

def normalizeBody (body : List Char) : List Char := replaceAll bodyToken abstractToken body

def twinCount (shapes : List (List Char)) : Nat :=
  shapes.countP fun shape => !shape.isEmpty && 1 < shapes.count shape

variable {α : Type} [Scalar α]

def similarFunctionRatio (s : Source.Prepared) : α :=
  if s.functions.length < 2 then zero
  else
    let shapes := s.functions.map fun d => normalizeBody (d.body s.masked)
    perCount (twinCount shapes) s.functions.length

def copiedLines (scanLimit : Nat) (ids : List Nat) : Nat :=
  if scanLimit < ids.length then windowCoverage ids else longestBlockCoverage ids

def redundancyMeasurements (scanLimit : Nat) (s : Source.Prepared) : Measurements α :=
  let ids := intern (s.codeLines.map Text.trim)
  let duplicates := duplicateLines ids
  let repeated := repeatedWindows ids
  [("duplicate_lines", count duplicates),
    ("duplicate_line_ratio", perCount duplicates s.loc),
    ("repeated_patterns", count repeated),
    ("repeated_patterns_per_loc", perCount repeated s.loc),
    ("copy_paste_score", perCount (copiedLines scanLimit ids) s.loc),
    ("similar_function_ratio", similarFunctionRatio s)]

end Authorship.Analysis
