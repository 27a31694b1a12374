import Authorship.Proofs.PreparedAgain

/-
Two texts on lines of their own. At a newline the scanner has nothing pending but a block comment,
so that a text which leaves none open is prepared as if nothing followed it, and the text after it
as if nothing came before.
-/
namespace Authorship.Source

/-- A comment is opened by two characters, of which the second one is no opener. -/
theorem last_no_opener (mode : Mode) (cs : List Char) :
    ∀ m ∈ (scan mode cs).getLast?, m.role ≠ .lineOpener := by
  fun_induction scan mode cs <;> simp_all [List.getLast?_cons] <;> grind

theorem comment_ended {m : Mark} (marks rest : List Mark) (ended : m.role ≠ .comment) :
    (marks ++ m :: rest).takeWhile (·.role = .comment) = marks.takeWhile (·.role = .comment) := by
  induction marks with
  | nil => simp [ended]
  | cons first marks ih => simp [List.takeWhile_cons, ih]

theorem line_comments_append {marks : List Mark} {m : Mark} (rest : List Mark)
    (whole : ∀ m ∈ marks.getLast?, m.role ≠ .lineOpener) (ended : m.role ≠ .comment) :
    lineComments (marks ++ m :: rest) = lineComments marks ++ lineComments (m :: rest) := by
  induction marks with
  | nil => rfl
  | cons first marks ih =>
    cases marks with
    | nil =>
      have other : first.role ≠ .lineOpener := by simpa using whole
      simp [lineComments, other]
    | cons second marks =>
      have later := ih (by simpa [List.getLast?_cons_cons] using whole)
      rw [List.cons_append, lineComments, lineComments, later]
      by_cases opener : first.role = .lineOpener
      · rw [if_pos opener, if_pos opener]
        simp only [List.cons_append, List.drop_succ_cons, List.drop_zero, comment_ended _ _ ended]
      · rw [if_neg opener, if_neg opener]

theorem kept_lines_append {marks : List Mark} (inBlock : Bool) (rest : List Mark)
    (aligned : (codeText marks).count '\n' = (maskedText marks).count '\n') :
    keptLines (marks ++ ⟨'\n', .newline inBlock⟩ :: rest) = keptLines marks ++ keptLines rest := by
  have code : codeText (marks ++ ⟨'\n', .newline inBlock⟩ :: rest) =
      codeText marks ++ '\n' :: codeText rest := by
    unfold codeText
    rw [List.filterMap_append]
    rfl
  have masked : maskedText (marks ++ ⟨'\n', .newline inBlock⟩ :: rest) =
      maskedText marks ++ '\n' :: maskedText rest := by
    unfold maskedText
    rw [List.filterMap_append]
    rfl
  have lengths : (Text.splitOn '\n' (codeText marks)).length =
      (Text.splitOn '\n' (maskedText marks)).length := by
    rw [Text.split_length, Text.split_length, aligned]
  unfold keptLines
  dsimp only
  rw [Text.split_eq, Text.split_eq] at lengths
  simp only [code, masked, Text.split_eq, List.splitOn_append_cons_self, List.zip_append lengths,
    List.filter_append, List.map_append]

section

variable {first second : String} (closed : endsInBlock false (marksIn first) = false)
  (ending : first.toList.getLast? ≠ some '\r')

include closed ending

theorem marks_of_joined :
    marksIn (first ++ "\n" ++ second) =
      marksIn first ++ ⟨'\n', .newline false⟩ :: marksIn second := by
  have joined : (first ++ "\n" ++ second).toList = first.toList ++ '\n' :: second.toList := by
    rw [String.toList_append, String.toList_append, List.append_assoc]
    rfl
  unfold marksIn at *
  rw [joined, Text.returns_append _ (Or.inl ending), Text.returns_cons _ (by decide),
    scan_append_newline _ closed]

theorem kept_lines_of_joined :
    keptLines (marksIn (first ++ "\n" ++ second)) =
      keptLines (marksIn first) ++ keptLines (marksIn second) := by
  rw [marks_of_joined closed ending]
  exact kept_lines_append false _ (same_newlines .code _)

theorem comments_of_joined :
    lineComments (marksIn (first ++ "\n" ++ second)) =
      lineComments (marksIn first) ++ lineComments (marksIn second) := by
  rw [marks_of_joined closed ending]
  exact line_comments_append _ (last_no_opener .code _) (by simp)

end

/-- A text that is followed by another one on lines of its own has the lines of code, the masked
lines and the line comments that it has alone, and so has the other one, unless the first leaves a
block comment open or ends with a carriage return, which the newline would take along. -/
theorem joined_texts_prepared_apart (first second filename filename' filename'' : String)
    (closed : endsInBlock false (marksIn first) = false)
    (ending : first.toList.getLast? ≠ some '\r') :
    let a := prepare first filename
    let b := prepare second filename'
    let joined := prepare (first ++ "\n" ++ second) filename''
    joined.codeLines = a.codeLines ++ b.codeLines ∧
      joined.maskedLines = a.maskedLines ++ b.maskedLines ∧
      joined.lineComments = a.lineComments ++ b.lineComments := by
  intro a b joined
  have kept : keptLines (marksIn (first ++ "\n" ++ second)) = _ :=
    kept_lines_of_joined closed ending
  refine ⟨?_, ?_, ?_⟩
  · calc joined.codeLines = (keptLines (marksIn (first ++ "\n" ++ second))).map (·.1) := rfl
      _ = a.codeLines ++ b.codeLines := by
        rw [kept, List.map_append]
        rfl
  · calc joined.maskedLines = (keptLines (marksIn (first ++ "\n" ++ second))).map (·.2) := rfl
      _ = a.maskedLines ++ b.maskedLines := by
        rw [kept, List.map_append]
        rfl
  · calc joined.lineComments = lineComments (marksIn (first ++ "\n" ++ second)) := rfl
      _ = a.lineComments ++ b.lineComments := by
        rw [comments_of_joined closed ending]
        rfl

def openLiteral : String := "s = \"/*\\"

def commentAfter : String := "t; // \"/*"

theorem open_literal_joined : endsInBlock false (marksIn openLiteral) = false ∧
    openLiteral.toList.getLast? ≠ some '\r' ∧
    (let joined := prepare (openLiteral ++ "\n" ++ commentAfter) "ab.c"
    joined.codeLines = ["s = \"/*\\".toList, "t;".toList] ∧
      joined.maskedLines = ["s = \"".toList, "t;".toList] ∧
      joined.lineComments = [" \"/*".toList]) := by
  have closed : endsInBlock false (marksIn openLiteral) = false := by decide
  have ending : openLiteral.toList.getLast? ≠ some '\r' := by decide
  obtain ⟨code, masked, comments⟩ :=
    joined_texts_prepared_apart openLiteral commentAfter "a.c" "b.c" "ab.c" closed ending
  refine ⟨closed, ending, ?_, ?_, ?_⟩
  · exact code.trans (by decide)
  · exact masked.trans (by decide)
  · exact comments.trans (by decide)

end Authorship.Source
