import Authorship.Proofs.CodeLines
import Mathlib.Data.List.DropRight

/-
Physical lines. A text is its pieces joined again, a piece loses at most one carriage return at its
end, and lines that end with no blank come back from the text that they are joined to.
-/
namespace Authorship.Text

theorem join_eq (separator : Char) (pieces : List (List Char)) :
    joinWith separator pieces = [separator].intercalate pieces := by
  induction pieces with
  | nil => rfl
  | cons piece more ih =>
    cases more with
    | nil => simp [joinWith]
    | cons next rest => simp [joinWith, ih]

theorem join_cons {separator : Char} {pieces : List (List Char)} (piece : List Char)
    (more : pieces ≠ []) :
    joinWith separator (piece :: pieces) = piece ++ separator :: joinWith separator pieces := by
  cases pieces with
  | nil => exact absurd rfl more
  | cons next rest => rfl

theorem join_split (separator : Char) (cs : List Char) :
    joinWith separator (splitOn separator cs) = cs := by
  rw [join_eq, split_eq, List.intercalate_splitOn]

theorem split_joined {separator : Char} {pieces : List (List Char)} (some : pieces ≠ [])
    (whole : ∀ piece ∈ pieces, separator ∉ piece) :
    splitOn separator (joinWith separator pieces) = pieces := by
  rw [join_eq, split_eq, List.splitOn_intercalate separator whole some]

theorem pieces_whole (separator : Char) (cs : List Char) :
    ∀ piece ∈ splitOn separator cs, separator ∉ piece := by
  induction cs with
  | nil => simp [splitOn]
  | cons c cs ih =>
    by_cases same : c = separator
    · subst same
      simpa [split_separator] using ih
    · obtain ⟨piece, more, pieces⟩ := split_begins separator cs
      rw [pieces, List.forall_mem_cons] at ih
      rw [split_ordinary same pieces, List.forall_mem_cons]
      exact ⟨by simp [Ne.symm same, ih.1], ih.2⟩

theorem split_last (separator : Char) (cs : List Char) :
    ∃ pieces last, splitOn separator cs = pieces ++ [last] := by
  rw [split_eq]
  exact ⟨_, _, (List.dropLast_append_getLast (List.splitOn_ne_nil separator cs)).symm⟩

theorem lines_of_split {cs last : List Char} {pieces : List (List Char)}
    (split : splitOn '\n' cs = pieces ++ [last]) :
    lines cs = pieces.map dropLineEnd ++ if last = [] then [] else [last] := by
  cases last <;> simp [lines, split]

theorem drop_return (line : List Char) : dropLineEnd (line ++ ['\r']) = line := by
  simp [dropLineEnd]

theorem drop_no_return {line : List Char} (last : line.getLast? ≠ some '\r') :
    dropLineEnd line = line := by
  unfold dropLineEnd
  split
  · contradiction
  · rfl

/- Carriage returns that normalisation finds nothing to do about. -/

theorem returns_cons {c : Char} (cs : List Char) (other : c ≠ '\r') :
    withoutCarriageReturns (c :: cs) = c :: withoutCarriageReturns cs := by
  rw [withoutCarriageReturns]
  intro rest same
  exact absurd same other

theorem returns_in_line {line : List Char} (whole : '\n' ∉ line) :
    withoutCarriageReturns line = line := by
  induction line with
  | nil => rfl
  | cons c line ih =>
    simp only [List.mem_cons, not_or] at whole
    rw [withoutCarriageReturns, ih whole.2]
    rintro rest - rfl
    exact whole.2 List.mem_cons_self

theorem returns_joined {pieces : List (List Char)}
    (whole : ∀ piece ∈ pieces, '\n' ∉ piece)
    (ends : ∀ piece ∈ pieces, piece.getLast? ≠ some '\r') :
    withoutCarriageReturns (joinWith '\n' pieces) = joinWith '\n' pieces := by
  induction pieces with
  | nil => rfl
  | cons piece pieces ih =>
    obtain ⟨inLine, whole⟩ := List.forall_mem_cons.mp whole
    obtain ⟨last, ends⟩ := List.forall_mem_cons.mp ends
    by_cases more : pieces = []
    · subst more
      exact returns_in_line inLine
    · rw [join_cons piece more, returns_append _ (Or.inl last), returns_in_line inLine,
        returns_cons _ (by decide), ih whole ends]

/- Lines without the blanks that end them. -/

theorem trim_end_eq (line : List Char) : trimEnd line = line.rdropWhile isBlank := rfl

theorem trim_end_split (line : List Char) :
    ∃ blanks, line = trimEnd line ++ blanks ∧ ∀ c ∈ blanks, isBlank c = true := by
  refine ⟨line.rtakeWhile isBlank, ?_, ?_⟩
  · rw [trim_end_eq, List.rdropWhile_append_rtakeWhile]
  · intro c member
    exact List.mem_rtakeWhile_imp member

theorem trim_end_blanks (line : List Char) {blanks : List Char}
    (blank : ∀ c ∈ blanks, isBlank c = true) : trimEnd (line ++ blanks) = trimEnd line := by
  induction blanks using List.reverseRecOn with
  | nil => rw [List.append_nil]
  | append_singleton blanks c ih =>
    rw [← List.append_assoc, trim_end_snoc (blank c (by simp))]
    exact ih fun d member => blank d (by simp [member])

/-- A line of code as it is kept: there is something on it, and no blank ends it. -/
structure Kept (line : List Char) : Prop where
  visible : isBlankLine line = false
  trimmed : trimEnd line = line

theorem trimmed_is_kept {line : List Char} (visible : isBlankLine line = false) :
    Kept (trimEnd line) := by
  constructor
  · obtain ⟨blanks, parts, blank⟩ := trim_end_split line
    have last : isBlankLine blanks = true := List.all_eq_true.mpr blank
    rw [parts, isBlankLine, List.all_append] at visible
    rw [isBlankLine] at last
    simpa [last, isBlankLine] using visible
  · exact List.rdropWhile_idempotent isBlank line

theorem kept_last {line : List Char} (kept : Kept line) {c : Char}
    (last : line.getLast? = some c) : isBlank c = false := by
  obtain ⟨start, rfl⟩ := List.getLast?_eq_some_iff.mp last
  have ends := List.rdropWhile_eq_self_iff.mp kept.trimmed (by simp)
  simpa using ends

theorem kept_nonempty {line : List Char} (kept : Kept line) : line ≠ [] := by
  rintro rfl
  exact absurd kept.visible (by decide)

theorem kept_ends {line : List Char} (kept : Kept line) : line.getLast? ≠ some '\r' := by
  intro last
  exact absurd (kept_last kept last) (by decide)

theorem lines_joined {pieces : List (List Char)} (whole : ∀ piece ∈ pieces, '\n' ∉ piece)
    (kept : ∀ piece ∈ pieces, Kept piece) : lines (joinWith '\n' pieces) = pieces := by
  induction pieces using List.reverseRecOn with
  | nil => rfl
  | append_singleton pieces last ih =>
    rw [lines_of_split (split_joined (by simp) whole), if_neg (kept_nonempty (kept last (by simp)))]
    congr 1
    calc pieces.map dropLineEnd = pieces.map id := by
          apply List.map_congr_left
          intro piece member
          exact drop_no_return (kept_ends (kept piece (by simp [member])))
      _ = pieces := List.map_id pieces

end Authorship.Text
