import Authorship.Proofs.ExtractedVector
import Authorship.Proofs.TextLines

/-
Line endings. Whether the lines of a text end with a newline or with a carriage return and a newline
shows in the stored text alone. Lines are cut in two ways, for code after normalisation and for
layout as they stand, and both lose the carriage return.
-/
namespace Authorship

namespace Text

def withReturns (cs : List Char) : List Char :=
  cs.flatMap fun c => if c = '\n' then ['\r', '\n'] else [c]

theorem with_returns_newline (cs : List Char) :
    withReturns ('\n' :: cs) = '\r' :: '\n' :: withReturns cs := rfl

theorem with_returns_other {c : Char} (cs : List Char) (other : c ≠ '\n') :
    withReturns (c :: cs) = c :: withReturns cs := by
  simp [withReturns, other]

theorem returns_absent {cs : List Char} (bare : '\r' ∉ cs) : withoutCarriageReturns cs = cs := by
  induction cs with
  | nil => rfl
  | cons c cs ih =>
    simp only [List.mem_cons, not_or] at bare
    rw [returns_cons cs (Ne.symm bare.1), ih bare.2]

theorem returns_restored {cs : List Char} (bare : '\r' ∉ cs) :
    withoutCarriageReturns (withReturns cs) = cs := by
  induction cs with
  | nil => rfl
  | cons c cs ih =>
    simp only [List.mem_cons, not_or] at bare
    by_cases newline : c = '\n'
    · subst newline
      rw [with_returns_newline, withoutCarriageReturns, ih bare.2]
    · rw [with_returns_other cs newline, returns_cons _ (Ne.symm bare.1), ih bare.2]

/- Every piece but the last one gets a carriage return at its end. -/
theorem split_with_returns (cs : List Char) :
    ∃ pieces last, splitOn '\n' cs = pieces ++ [last] ∧
      splitOn '\n' (withReturns cs) = pieces.map (· ++ ['\r']) ++ [last] := by
  induction cs with
  | nil => exact ⟨[], [], rfl, rfl⟩
  | cons c cs ih =>
    obtain ⟨pieces, last, split, split'⟩ := ih
    by_cases newline : c = '\n'
    · subst newline
      refine ⟨[] :: pieces, last, ?_, ?_⟩
      · rw [split_separator, split, List.cons_append]
      · rw [with_returns_newline, split_ordinary (by decide) (split_separator '\n' _), split']
        rfl
    · rw [with_returns_other cs newline]
      cases pieces with
      | nil => exact ⟨[], c :: last, split_ordinary newline split, split_ordinary newline split'⟩
      | cons piece more =>
        exact ⟨(c :: piece) :: more, last, split_ordinary newline split,
          split_ordinary newline split'⟩

theorem lines_with_returns {cs : List Char} (bare : '\r' ∉ cs) :
    lines (withReturns cs) = lines cs := by
  obtain ⟨pieces, last, split, split'⟩ := split_with_returns cs
  have free : ∀ piece ∈ splitOn '\n' cs, ∀ c ∈ piece, c ≠ '\r' := by
    rw [mem_pieces '\n' cs (· ≠ '\r') (by decide)]
    intro c member same
    exact bare (same ▸ member)
  have unchanged : ∀ piece ∈ pieces, dropLineEnd piece = piece := by
    intro piece member
    apply drop_no_return
    intro ends
    exact free piece (by simp [split, member]) '\r' (List.mem_of_getLast? ends) rfl
  rw [lines_of_split split', lines_of_split split, List.map_map, List.map_congr_left unchanged]
  simp [Function.comp_def, drop_return]

end Text

open Analysis Source

theorem Source.prepare_with_returns {text : String} (bare : '\r' ∉ text.toList)
    (filename : String) : prepare (String.ofList (Text.withReturns text.toList)) filename =
      { prepare text filename with raw := Text.withReturns text.toList } := by
  simp only [prepare, String.toList_ofList, Text.returns_restored bare, Text.returns_absent bare,
    Text.lines_with_returns bare]

/- Of the stored text, measurements see the lines. -/
section

variable {α : Type} [Analytic α]

theorem style_reads_lines (w : StyleWeights α) (s : Prepared) {raw : List Char}
    (same : Text.lines raw = s.rawLines) :
    styleMeasurements w { s with raw := raw } = styleMeasurements w s := by
  have lines : Prepared.rawLines { s with raw := raw } = s.rawLines := same
  have issues : styleIssues { s with raw := raw } = styleIssues s := by
    simp only [styleIssues, spacingIssues, formattingIssues, lines]
    rfl
  simp only [styleMeasurements, issues]

theorem extraction_reads_lines (c : Settings α) (s : Prepared) {raw : List Char}
    (same : Text.lines raw = s.rawLines) :
    extractPrepared c { s with raw := raw } = extractPrepared c s := by
  have families (family : Family) :
      family.measure c { s with raw := raw } = family.measure c s := by
    cases family with
    | humanStyle => exact style_reads_lines c.styleWeights s same
    | _ => rfl
  simp only [extractPrepared, measurements, families]
  rfl

end

/-- Ending every line with a carriage return too changes the stored text and nothing else, neither
what is prepared nor what is measured, whatever is left out and however it is weighted. -/
theorem line_endings_unseen (text filename : String) (bare : '\r' ∉ text.toList) :
    let returned := String.ofList (Text.withReturns text.toList)
    prepare returned filename = { prepare text filename with raw := returned.toList } ∧
      (prepare returned filename).rawLines = (prepare text filename).rawLines ∧
      ∀ (α : Type) [Analytic α] (c : Settings α),
        extract c returned filename = extract c text filename := by
  intro returned
  have prepared : prepare returned filename =
      { prepare text filename with raw := Text.withReturns text.toList } :=
    prepare_with_returns bare filename
  have lines : Text.lines (Text.withReturns text.toList) = (prepare text filename).rawLines :=
    Text.lines_with_returns bare
  refine ⟨?_, ?_, ?_⟩
  · rw [prepared, String.toList_ofList]
  · rw [prepared]
    exact lines
  · intro α _ c
    rw [extract, extract, prepared, extraction_reads_lines c _ lines]

def fourLineText : String := "int a; \n\tint b = 1; // one\n\nf(a)"

theorem four_lines_returned : '\r' ∉ fourLineText.toList ∧
    (let returned := String.ofList (Text.withReturns fourLineText.toList)
    prepare returned "f.c" = { prepare fourLineText "f.c" with raw := returned.toList } ∧
      (prepare returned "f.c").rawLines = (prepare fourLineText "f.c").rawLines ∧
      ∀ (α : Type) [Analytic α] (c : Settings α),
        extract c returned "f.c" = extract c fourLineText "f.c") := by
  have bare : '\r' ∉ fourLineText.toList := by decide
  exact ⟨bare, line_endings_unseen fourLineText "f.c" bare⟩

end Authorship
