import Authorship.Analysis.Extraction
import Authorship.Proofs.FunctionNames
import Authorship.Proofs.PreparedAgain
import Mathlib.Algebra.Order.BigOperators.Group.List

/-
How many things there are to count in a file of some length. The lines of a file, each with its
newline, are no longer together than the file and one more character, a match takes a character of
its own, and the names that follow one type are parts of what is left of the text.
-/
namespace Authorship

def linesSize (lines : List (List Char)) : Nat := (lines.map fun line => line.length + 1).sum

namespace Text

theorem lines_size_cons (line : List Char) (lines : List (List Char)) :
    linesSize (line :: lines) = line.length + 1 + linesSize lines := by
  simp [linesSize]

theorem length_le_size (lines : List (List Char)) : lines.length ≤ linesSize lines := by
  induction lines with
  | nil => exact Nat.zero_le _
  | cons line lines ih =>
    rw [lines_size_cons, List.length_cons]
    omega

theorem joined_length (separator : Char) {pieces : List (List Char)} (some : pieces ≠ []) :
    (joinWith separator pieces).length + 1 = linesSize pieces := by
  induction pieces with
  | nil => exact absurd rfl some
  | cons piece pieces ih =>
    cases pieces with
    | nil => simp [joinWith, linesSize]
    | cons next rest =>
      have ih := ih (by simp)
      rw [join_cons piece (by simp), lines_size_cons, List.length_append, List.length_cons, ← ih]
      omega

theorem joined_length_le (separator : Char) (pieces : List (List Char)) :
    (joinWith separator pieces).length ≤ linesSize pieces := by
  cases pieces with
  | nil => simp [joinWith]
  | cons piece pieces =>
    rw [← joined_length separator (List.cons_ne_nil piece pieces)]
    exact Nat.le_succ _

theorem split_size (separator : Char) (cs : List Char) :
    linesSize (splitOn separator cs) = cs.length + 1 := by
  have some : splitOn separator cs ≠ [] := split_eq separator cs ▸ List.splitOn_ne_nil _ _
  rw [← joined_length separator some, join_split]

theorem trim_end_length (line : List Char) : (trimEnd line).length ≤ line.length := by
  obtain ⟨blanks, parts, -⟩ := trim_end_split line
  have := congrArg List.length parts
  rw [List.length_append] at this
  omega

theorem without_returns_length (cs : List Char) :
    (withoutCarriageReturns cs).length ≤ cs.length := by
  fun_induction withoutCarriageReturns cs with
  | case1 => exact Nat.le_refl _
  | case2 cs ih => simp only [List.length_cons]; omega
  | case3 c cs other ih => simpa using ih

theorem lines_length (cs : List Char) : (lines cs).length ≤ cs.length + 1 := by
  obtain ⟨pieces, last, split⟩ := split_last '\n' cs
  have size : (pieces ++ [last]).length ≤ cs.length + 1 := by
    rw [← split, ← split_size '\n' cs]
    exact length_le_size _
  rw [List.length_append, List.length_singleton] at size
  rw [lines_of_split split, List.length_append, List.length_map]
  split
  · simp only [List.length_nil]
    omega
  · simpa using size

end Text

/- The parts of a prepared file. -/

namespace Source

theorem kept_seconds_size (p : List Char → Bool) (firsts seconds : List (List Char)) :
    linesSize (((firsts.zip seconds).filter fun pair => p pair.1).map fun pair =>
      Text.trimEnd pair.2) ≤ linesSize seconds := by
  induction firsts generalizing seconds with
  | nil => simp [linesSize]
  | cons first firsts ih =>
    cases seconds with
    | nil => simp [linesSize]
    | cons second seconds =>
      have rest := ih seconds
      have trimmed := Text.trim_end_length second
      rw [List.zip_cons_cons, Text.lines_size_cons]
      by_cases kept : p first = true
      · rw [List.filter_cons_of_pos (by exact kept), List.map_cons, Text.lines_size_cons]
        exact Nat.add_le_add (Nat.succ_le_succ trimmed) rest
      · rw [List.filter_cons_of_neg (by exact kept)]
        omega

theorem marks_length (text : String) : (marksIn text).length ≤ text.length := by
  have chars := congrArg List.length (scan_chars .code (Text.withoutCarriageReturns text.toList))
  rw [List.length_map] at chars
  rw [marksIn, chars, ← String.length_toList]
  exact Text.without_returns_length _

theorem masked_lines_size (text filename : String) :
    linesSize (prepare text filename).maskedLines ≤ text.length + 1 := by
  have kept := kept_seconds_size (fun code => !Text.isBlankLine code)
    (Text.splitOn '\n' (codeText (marksIn text))) (Text.splitOn '\n' (maskedText (marksIn text)))
  have masked : (maskedText (marksIn text)).length ≤ (marksIn text).length :=
    List.length_filterMap_le _ _
  have size := marks_length text
  rw [Text.split_size] at kept
  rw [masked_lines_kept, keptLines, List.map_map]
  exact kept.trans (by omega)

theorem code_lines_length (text filename : String) :
    (prepare text filename).codeLines.length = (prepare text filename).maskedLines.length := by
  rw [masked_lines_kept, List.length_map]
  exact List.length_map _

theorem line_comments_length_le (marks : List Mark) :
    (lineComments marks).length ≤ marks.length := by
  induction marks with
  | nil => exact Nat.le_refl _
  | cons m marks ih =>
    rw [lineComments]
    split
    · exact Nat.succ_le_succ ih
    · exact ih.trans (Nat.le_succ _)

end Source

namespace Lexicon

open Pattern

theorem sum_of_le_size {f : List Char → Nat} (le : ∀ line, f line ≤ line.length)
    (lines : List (List Char)) : (lines.map f).sum ≤ linesSize lines := by
  induction lines with
  | nil => exact Nat.zero_le _
  | cons line lines ih =>
    have first := le line
    rw [List.map_cons, List.sum_cons, Text.lines_size_cons]
    omega

theorem filter_size_le (p : List Char → Bool) (lines : List (List Char)) :
    linesSize (lines.filter p) ≤ linesSize lines := by
  induction lines with
  | nil => exact Nat.le_refl _
  | cons line lines ih =>
    rw [List.filter_cons, Text.lines_size_cons]
    split
    · rw [Text.lines_size_cons]
      exact Nat.add_le_add_left ih _
    · exact ih.trans (Nat.le_add_left _ _)

theorem found_length_le {β : Type} (p : Pattern) {found : List Char → List β}
    (each : ∀ line, (found line).length ≤ countMatches p line) (lines : List (List Char)) :
    (lines.flatMap found).length ≤ linesSize lines := by
  rw [List.length_flatMap]
  exact sum_of_le_size (fun line => (each line).trans (count_matches_le p line)) lines

theorem headers_length (masked : List Char) : (headers masked).length ≤ masked.length := by
  rw [headers]
  refine (List.length_filter_le _ _).trans ?_
  rw [List.length_map]
  exact count_matches_le header masked

theorem definitions_length (masked : List Char) :
    (functionDefinitions masked).length ≤ masked.length := by
  have same (pairs : List (Nat × Nat)) (hs : List Header) :
      (definitionsFrom masked pairs hs).length = hs.length := by
    induction hs with
    | nil => rfl
    | cons h hs ih => simp [definitionsFrom, ih]
  rw [functionDefinitions, same]
  exact headers_length masked

theorem distinct_sublist {β : Type} [BEq β] (xs : List β) : xs.eraseDups.Sublist xs := by
  match xs with
  | [] => exact .refl _
  | x :: xs =>
    rw [List.eraseDups_cons]
    exact ((distinct_sublist _).trans List.filter_sublist).cons_cons x
termination_by xs.length
decreasing_by exact Nat.lt_succ_of_le (List.length_filter_le _ _)

theorem function_names_length (masked : List Char) :
    (functionNames masked).length ≤ masked.length := by
  have found : (functionNames masked).length ≤ (allMatches namedHeader masked).length := by
    refine (distinct_sublist _).length_le.trans ((List.length_filter_le _ _).trans ?_)
    rw [List.length_map]
  exact found.trans (count_matches_le namedHeader masked)

theorem identifiers_length (lines : List (List Char)) :
    (identifiers lines).length ≤ linesSize lines := by
  rw [identifiers]
  refine (List.length_filter_le _ _).trans ?_
  refine (found_length_le identifier (fun line => ?_) _).trans (filter_size_le _ lines)
  rw [List.length_map]
  exact Nat.le_refl _

theorem declarator_names_length (turns : Nat) (isFirst : Bool) (cs : List Char) :
    (declaratorNames turns isFirst cs).length ≤ turns := by
  induction turns generalizing isFirst cs with
  | zero => simp [declaratorNames]
  | succ turns ih =>
    have continued (cs : List Char) : (declaratorNames.continued turns cs).length ≤ turns := by
      unfold declaratorNames.continued
      split
      · exact ih false _
      · exact Nat.zero_le _
    unfold declaratorNames
    split
    · exact Nat.zero_le _
    · split
      · exact Nat.zero_le _
      · dsimp only
        split
        · split
          · exact Nat.zero_le _
          · exact Nat.succ_le_succ (continued _)
        · exact Nat.succ_le_succ (continued _)
        · exact Nat.succ_le_succ (continued _)

theorem spells_declared_type : Spells declaredType ⊤ :=
  (spells_boundary.cons (spells_qualifier.many.cons
    ((spells_literals _).cons spells_boundary.last))).any

theorem declarations_length (masked : List Char) :
    (declarations masked).length ≤ masked.length * masked.length := by
  have each : ∀ m ∈ allMatches declaredType masked,
      (declaratorNames m.after.length true m.after).length ≤ masked.length := by
    intro m found
    have text := congrArg List.length (all_matches_fit spells_declared_type m found).text_eq
    have names := declarator_names_length m.after.length true m.after
    simp only [List.length_append] at text
    omega
  have matches' := count_matches_le declaredType masked
  have total : (declarations masked).length ≤
      (allMatches declaredType masked).length * masked.length := by
    rw [declarations, List.length_flatMap]
    refine (List.sum_le_card_nsmul _ masked.length ?_).trans ?_
    · intro n member
      obtain ⟨m, found, rfl⟩ := List.mem_map.mp member
      simpa using each m found
    · simp
  exact total.trans (Nat.mul_le_mul_right _ matches')

end Lexicon

end Authorship
