import Authorship.Proofs.PreparedAgain

/-
What becomes of every physical line. A line with something on it has code, or a comment reaches onto
it; a line has one line comment at most, which is something on it. The counts of a file are made in
three passes, and these facts, line by line, are what they have in common.
-/
namespace Authorship

namespace Text

theorem drop_cons {c : Char} {piece : List Char} (inside : c ≠ '\r' ∨ piece ≠ []) :
    dropLineEnd (c :: piece) = c :: dropLineEnd piece := by
  cases piece with
  | nil =>
    have other : c ≠ '\r' := by simpa using inside
    simp [dropLineEnd, other]
  | cons d piece =>
    simp only [dropLineEnd, List.getLast?_cons_cons]
    split <;> rfl

theorem empty_first_piece {cs : List Char} {piece : List Char} {pieces : List (List Char)}
    (split : splitOn '\n' cs = [] :: piece :: pieces) : ∃ more, cs = '\n' :: more := by
  cases cs with
  | nil => simp [splitOn] at split
  | cons c cs =>
    by_cases newline : c = '\n'
    · exact ⟨cs, by rw [newline]⟩
    · obtain ⟨first, rest, more⟩ := split_begins '\n' cs
      rw [split_ordinary newline more] at split
      simp at split

/- Normalisation drops what the cutting into lines drops, except at the end of the text. -/
theorem split_without_returns (cs : List Char) :
    ∃ pieces last, splitOn '\n' cs = pieces ++ [last] ∧
      splitOn '\n' (withoutCarriageReturns cs) = pieces.map dropLineEnd ++ [last] := by
  fun_induction withoutCarriageReturns cs with
  | case1 => exact ⟨[], [], rfl, rfl⟩
  | case2 cs ih =>
    obtain ⟨pieces, last, split, split'⟩ := ih
    refine ⟨['\r'] :: pieces, last, ?_, ?_⟩
    · rw [split_ordinary (by decide) (split_separator '\n' cs), split]
      rfl
    · rw [split_separator, split']
      rfl
  | case3 c cs other ih =>
    obtain ⟨pieces, last, split, split'⟩ := ih
    by_cases newline : c = '\n'
    · subst newline
      refine ⟨[] :: pieces, last, ?_, ?_⟩
      · rw [split_separator, split, List.cons_append]
      · rw [split_separator, split']
        rfl
    · cases pieces with
      | nil => exact ⟨[], c :: last, split_ordinary newline split, split_ordinary newline split'⟩
      | cons piece more =>
        refine ⟨(c :: piece) :: more, last, split_ordinary newline split, ?_⟩
        -- A carriage return that is a piece of its own has a newline after it.
        have inside : c ≠ '\r' ∨ piece ≠ [] := by
          by_cases alone : piece = []
          · subst alone
            obtain ⟨next, rest, more⟩ : ∃ next rest, more ++ [last] = next :: rest :=
              List.exists_cons_of_ne_nil (by simp)
            rw [List.cons_append, more] at split
            obtain ⟨after, rfl⟩ := empty_first_piece split
            exact Or.inl fun isReturn => other after isReturn rfl
          · exact Or.inr alone
        rw [split_ordinary newline split', List.map_cons, drop_cons inside]
        rfl

/-- The physical lines are the pieces of the normalised text, but for an empty last one. -/
theorem lines_of_normalised (cs : List Char) :
    ∃ pieces last, splitOn '\n' (withoutCarriageReturns cs) = pieces ++ [last] ∧
      lines cs = pieces ++ if last = [] then [] else [last] := by
  obtain ⟨pieces, last, split, split'⟩ := split_without_returns cs
  exact ⟨pieces.map dropLineEnd, last, split', lines_of_split split⟩

theorem count_lines {p : List Char → Bool} (empty : p [] = false) (cs : List Char) :
    (lines cs).countP p = (splitOn '\n' (withoutCarriageReturns cs)).countP p := by
  obtain ⟨pieces, last, split, lines⟩ := lines_of_normalised cs
  rw [lines, split, List.countP_append, List.countP_append]
  split
  · rename_i none
    simp [none, empty]
  · rfl

end Text

namespace Source

/- The marks line by line. -/

def markLines (marks : List Mark) : List (List Mark) := marks.splitOnP (·.char = '\n')

theorem mark_lines_newline (role : Role) (marks : List Mark) :
    markLines (⟨'\n', role⟩ :: marks) = [] :: markLines marks := by
  simp [markLines, List.splitOnP_cons_eq_if_modifyHead]

theorem mark_lines_cons {m : Mark} (marks : List Mark) (other : m.char ≠ '\n') :
    ∃ line rest, markLines marks = line :: rest ∧
      markLines (m :: marks) = (m :: line) :: rest := by
  obtain ⟨line, rest, lines⟩ := List.exists_cons_of_ne_nil
    (List.splitOnP_ne_nil (·.char = '\n') marks)
  exact ⟨line, rest, lines, by
    simp [markLines, List.splitOnP_cons_eq_if_modifyHead, other, lines]⟩

def Mark.Sound (m : Mark) : Prop := m.char = '\n' ↔ ∃ inBlock, m.role = .newline inBlock

theorem scan_sound (mode : Mode) (cs : List Char) : ∀ m ∈ scan mode cs, m.Sound := by
  fun_induction scan mode cs <;> simp_all [Mark.Sound]

theorem split_code {marks : List Mark} (sound : ∀ m ∈ marks, m.Sound) :
    Text.splitOn '\n' (codeText marks) = (markLines marks).map codeText := by
  induction marks with
  | nil => rfl
  | cons m marks ih =>
    obtain ⟨first, sound⟩ := List.forall_mem_cons.mp sound
    have ih := ih sound
    rw [code_text_cons]
    by_cases newline : m.char = '\n'
    · obtain ⟨inBlock, role⟩ := first.mp newline
      obtain ⟨char, _⟩ := m
      subst newline role
      rw [mark_lines_newline, List.map_cons, ← ih]
      exact Text.split_separator '\n' _
    · obtain ⟨line, rest, lines, lines'⟩ := mark_lines_cons marks newline
      rw [lines] at ih
      rw [lines', List.map_cons, code_text_cons]
      cases left : codeChar? m with
      | none => simpa using ih
      | some c =>
        have other : c ≠ '\n' := by
          unfold codeChar? at left
          split at left <;> cases left <;> first | exact newline | decide
        exact Text.split_ordinary other ih

/-- Marks as a scan makes them, from a place on a line that a comment has reached or not, and that
is within a line comment or not. -/
inductive Following : Bool → Bool → List Mark → Prop where
  | nil {commented inLine : Bool} : Following commented inLine []
  | newline {commented inLine inBlock : Bool} {marks : List Mark}
      (rest : Following inBlock false marks) :
      Following commented inLine (⟨'\n', .newline inBlock⟩ :: marks)
  | code {commented : Bool} {m : Mark} {marks : List Mark}
      (kept : m.role = .code ∨ m.role = .content) (char : m.char ≠ '\n')
      (rest : Following commented false marks) : Following commented false (m :: marks)
  | lineOpener {commented : Bool} {marks : List Mark} (rest : Following true true marks) :
      Following commented false (⟨'/', .lineOpener⟩ :: marks)
  | blockOpener {commented : Bool} {marks : List Mark} (rest : Following true false marks) :
      Following commented false (⟨'/', .blockOpener⟩ :: marks)
  | inside {inLine : Bool} {m : Mark} {marks : List Mark}
      (lost : m.role = .comment ∨ m.role = .hidden ∨ m.role = .closer) (char : m.char ≠ '\n')
      (rest : Following true inLine marks) : Following true inLine (m :: marks)

theorem scan_following (mode : Mode) (cs : List Char) {commented : Bool}
    (within : mode = .lineComment ∨ mode = .blockComment → commented = true) :
    Following commented (mode = .lineComment) (scan mode cs) := by
  fun_induction scan mode cs generalizing commented <;> grind [Following]

/-- Without the flag of a comment, everything on the line is code. -/
def CodeUnlessFlagged (line : List Mark) (flag : Bool) : Prop :=
  flag = false → ∀ m ∈ line, codeChar? m = some m.char

theorem first_flag (marks : List Mark) :
    ∃ flags, commentFlags true marks = true :: flags := by
  induction marks with
  | nil => exact ⟨[], rfl⟩
  | cons m marks ih =>
    obtain ⟨char, role⟩ := m
    cases role with
    | newline inBlock => exact ⟨_, rfl⟩
    | _ => exact ih

theorem flagged_cons {m : Mark} {flags : List Bool} {marks : List Mark} (inLine : m.char ≠ '\n')
    (known : codeChar? m = some m.char ∨ flags.head? = some true)
    (rest : List.Forall₂ CodeUnlessFlagged (markLines marks) flags) :
    List.Forall₂ CodeUnlessFlagged (markLines (m :: marks)) flags := by
  obtain ⟨line, more, lines, lines'⟩ := mark_lines_cons marks inLine
  rw [lines] at rest
  rw [lines']
  cases rest with
  | cons head tail =>
    refine .cons ?_ tail
    intro unflagged
    subst unflagged
    have kept : codeChar? m = some m.char := by simpa using known
    exact List.forall_mem_cons.mpr ⟨kept, head rfl⟩

theorem lines_flagged {commented inLine : Bool} {marks : List Mark}
    (following : Following commented inLine marks) :
    List.Forall₂ CodeUnlessFlagged (markLines marks) (commentFlags commented marks) := by
  have commentedLine (marks : List Mark) : (commentFlags true marks).head? = some true := by
    obtain ⟨flags, first⟩ := first_flag marks
    rw [first]
    rfl
  induction following with
  | nil => exact .cons (by simp [CodeUnlessFlagged]) .nil
  | newline rest ih =>
    rw [mark_lines_newline]
    exact .cons (by simp [CodeUnlessFlagged]) ih
  | @code commented m marks kept char rest ih =>
    have same : commentFlags commented (m :: marks) = commentFlags commented marks := by
      rcases kept with role | role <;> simp [commentFlags, role]
    rw [same]
    exact flagged_cons char (Or.inl (by rcases kept with role | role <;> simp [codeChar?, role])) ih
  | lineOpener rest ih => exact flagged_cons (by decide) (Or.inr (commentedLine _)) ih
  | blockOpener rest ih => exact flagged_cons (by decide) (Or.inr (commentedLine _)) ih
  | @inside inLine m marks lost char rest ih =>
    have same : commentFlags true (m :: marks) = commentFlags true marks := by
      rcases lost with role | role | role <;> simp [commentFlags, role]
    rw [same]
    exact flagged_cons char (Or.inr (commentedLine marks)) ih

theorem count_flagged {lines : List (List Mark)} {flags : List Bool} {p q : List Mark → Bool}
    (aligned : List.Forall₂ CodeUnlessFlagged lines flags)
    (told : ∀ line flag, CodeUnlessFlagged line flag → p line = true →
      q line = true ∨ flag = true) :
    lines.countP p ≤ lines.countP q + flags.count true := by
  induction aligned with
  | nil => simp
  | @cons line flag lines flags head tail ih =>
    rw [List.countP_cons, List.countP_cons, List.count_cons]
    have first : (if p line = true then 1 else 0) ≤
        (if q line = true then 1 else 0) + if flag == true then 1 else 0 := by
      by_cases counted : p line = true
      · rcases told line flag head counted with same | same <;> simp [counted, same]
      · simp [counted]
    omega

def opensLineComment (line : List Mark) : Bool := line.contains ⟨'/', .lineOpener⟩

def openLines (inLine : Bool) (marks : List Mark) : List (List Mark) :=
  if inLine then (markLines marks).tail else markLines marks

theorem openers_cons {m : Mark} {inLine : Bool} {marks : List Mark} (other : m.role ≠ .lineOpener)
    (char : m.char ≠ '\n') (apart : marks.countP (·.role = .lineOpener) ≤
      (openLines inLine marks).countP opensLineComment) :
    (m :: marks).countP (·.role = .lineOpener) ≤
      (openLines inLine (m :: marks)).countP opensLineComment := by
  obtain ⟨line, more, lines, lines'⟩ := mark_lines_cons marks char
  have other' : ⟨'/', .lineOpener⟩ ≠ m := fun same => other (same ▸ rfl)
  have same : opensLineComment (m :: line) = opensLineComment line := by
    simp [opensLineComment, other']
  simp only [openLines, lines, lines'] at apart ⊢
  cases inLine <;> simpa [other, same, List.countP_cons] using apart

/-- A line comment takes the rest of its line, so that no other one begins there. -/
theorem openers_apart {commented inLine : Bool} {marks : List Mark}
    (following : Following commented inLine marks) :
    marks.countP (·.role = .lineOpener) ≤ (openLines inLine marks).countP opensLineComment := by
  induction following with
  | nil => simp
  | @newline commented inLine inBlock marks rest ih =>
    rw [openLines, mark_lines_newline]
    cases inLine <;> simpa [opensLineComment, openLines] using ih
  | code kept char rest ih =>
    exact openers_cons (by rcases kept with role | role <;> simp [role]) char ih
  | @lineOpener commented marks rest ih =>
    have char : Mark.char ⟨'/', .lineOpener⟩ ≠ '\n' := by decide
    obtain ⟨line, more, lines, lines'⟩ := mark_lines_cons marks char
    simp only [openLines, lines, lines'] at ih ⊢
    simpa [opensLineComment] using ih
  | blockOpener rest ih => exact openers_cons (by simp) (by decide) ih
  | inside lost char rest ih =>
    exact openers_cons (by rcases lost with role | role | role <;> simp [role]) char ih

theorem line_comments_length (marks : List Mark) :
    (lineComments marks).length = marks.countP (·.role = .lineOpener) := by
  induction marks with
  | nil => rfl
  | cons m marks ih =>
    rw [lineComments, List.countP_cons]
    split <;> simp_all

/- What is on the lines of a text. -/

def onLine (line : List Mark) : Bool := !Text.isBlankLine (line.map (·.char))

def codeOnLine (line : List Mark) : Bool := !Text.isBlankLine (codeText line)

theorem code_is_on_line {line : List Mark} (code : codeOnLine line = true) :
    onLine line = true := by
  simp only [codeOnLine, onLine, Text.isBlankLine, Bool.not_eq_true', List.all_eq_false] at code ⊢
  obtain ⟨c, member, visible⟩ := code
  obtain ⟨m, inside, left⟩ := List.mem_filterMap.mp member
  refine ⟨m.char, List.mem_map_of_mem inside, ?_⟩
  unfold codeChar? at left
  split at left <;> cases left
  · exact visible
  · exact visible
  · exact visible
  · exact absurd (by decide) visible

theorem kept_line {line : List Mark} (kept : ∀ m ∈ line, codeChar? m = some m.char) :
    codeText line = line.map (·.char) := by
  rw [codeText, List.filterMap_congr kept]
  simp

theorem code_or_flagged (line : List Mark) (flag : Bool) (aligned : CodeUnlessFlagged line flag)
    (something : onLine line = true) : codeOnLine line = true ∨ flag = true := by
  cases flag with
  | false => exact Or.inl (by rw [codeOnLine, kept_line (aligned rfl)]; exact something)
  | true => exact Or.inr rfl

theorem comment_on_line {line : List Mark} (opens : opensLineComment line = true) :
    onLine line = true := by
  have member : ⟨'/', .lineOpener⟩ ∈ line := by simpa [opensLineComment] using opens
  simp only [onLine, Text.isBlankLine, Bool.not_eq_true', List.all_eq_false]
  exact ⟨'/', List.mem_map_of_mem member, by decide⟩

theorem opener_flagged (line : List Mark) (flag : Bool) (aligned : CodeUnlessFlagged line flag)
    (opens : opensLineComment line = true) : flag = true := by
  have member : ⟨'/', .lineOpener⟩ ∈ line := by simpa [opensLineComment] using opens
  cases flag with
  | false => simpa [codeChar?] using aligned rfl _ member
  | true => rfl

theorem loc_of_lines (text filename : String) :
    (prepare text filename).loc = (markLines (marksIn text)).countP codeOnLine := by
  rw [Prepared.loc, code_lines_eq, nonblankLines, List.length_map, ← List.countP_eq_length_filter,
    codeOf, split_code (scan_sound _ _), List.countP_map]
  rfl

theorem lines_on_line (text filename : String) : (prepare text filename).totalLines =
    (markLines (marksIn text)).countP onLine + (prepare text filename).blankLines := by
  have pieces : Text.splitOn '\n' (Text.withoutCarriageReturns text.toList) =
      (markLines (marksIn text)).map (·.map (·.char)) := by
    rw [markLines, ← split_marks (fun _ _ => Iff.rfl), marksIn, scan_chars]
  have visible : (Text.lines text.toList).countP (!Text.isBlankLine ·) =
      (markLines (marksIn text)).countP onLine := by
    rw [Text.count_lines (by decide), pieces, List.countP_map]
    rfl
  rw [total_lines_of_text, blank_lines_of_text, ← visible, Nat.add_comm]
  simpa using List.length_eq_countP_add_countP Text.isBlankLine (l := Text.lines text.toList)

/-- Every physical line is blank, has code or is reached by a comment, no blank one has code, and
every line comment is on a line of its own. -/
theorem every_line_accounted_for (text filename : String) :
    let s := prepare text filename
    s.loc + s.blankLines ≤ s.totalLines ∧
      s.totalLines ≤ s.loc + s.blankLines + s.commentLines ∧
      s.commentLines ≤ s.totalLines ∧
      s.lineComments.length ≤ s.commentLines := by
  intro s
  have following : Following false false (marksIn text) := scan_following .code _ (by simp)
  have aligned := lines_flagged following
  have total : s.totalLines = (markLines (marksIn text)).countP onLine + s.blankLines :=
    lines_on_line text filename
  have loc : s.loc = _ := loc_of_lines text filename
  have comments : s.commentLines =
      min ((commentFlags false (marksIn text)).count true) s.totalLines := rfl
  have coded : s.loc ≤ (markLines (marksIn text)).countP onLine :=
    loc ▸ List.countP_mono_left fun line _ => code_is_on_line
  have reached := count_flagged aligned code_or_flagged
  have openers : s.lineComments.length ≤ (markLines (marksIn text)).countP opensLineComment := by
    rw [line_comments_of_marks, line_comments_length]
    exact openers_apart following
  have flagged := count_flagged aligned (q := fun _ => false) fun line flag known opens =>
    Or.inr (opener_flagged line flag known opens)
  have apart : (markLines (marksIn text)).countP opensLineComment ≤
      (markLines (marksIn text)).countP onLine :=
    List.countP_mono_left fun line _ => comment_on_line
  rw [← loc] at reached
  simp only [List.countP_false, Function.const_apply, Nat.zero_add] at flagged
  rw [comments]
  omega

end Source

end Authorship
