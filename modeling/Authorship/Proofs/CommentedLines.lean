import Authorship.Proofs.LineCounts
import Authorship.Proofs.ReplacedSegments

/-
The lines that a comment is on, told by where the comments of a text begin and end. The scanner
flags these lines and no others. It also flags what follows a last newline, which is no line, when a
block comment is open there; the count of a file is cut to its lines, and is one too many all the
same where a line without a comment leaves room for it.
-/
namespace Authorship.Source

def Segment.isComment : Segment → Bool
  | .lineComment _ | .blockComment _ _ => true
  | .plain _ | .literal _ _ _ => false

/-- A comment begins on the line or before it, and it ends on the line or after it. -/
def CommentOn (segments : List Segment) (line : Nat) : Prop :=
  ∃ earlier comment later, segments = earlier ++ comment :: later ∧ comment.isComment = true ∧
    (textOf earlier).count '\n' ≤ line ∧
    line ≤ (textOf earlier).count '\n' + comment.text.count '\n'

variable {segment : Segment} {segments : List Segment} {line : Nat}

theorem comment_on_cons : CommentOn (segment :: segments) line ↔
    (segment.isComment = true ∧ line ≤ segment.text.count '\n') ∨
      segment.text.count '\n' ≤ line ∧ CommentOn segments (line - segment.text.count '\n') := by
  constructor
  · intro ⟨earlier, comment, later, parts, isComment, begun, ended⟩
    cases earlier with
    | nil =>
      obtain ⟨rfl, rfl⟩ := List.cons.inj parts
      left
      simpa [textOf, isComment] using ended
    | cons first earlier =>
      obtain ⟨rfl, rest⟩ := List.cons.inj parts
      rw [text_of_cons, List.count_append] at begun ended
      right
      constructor
      · omega
      · exact ⟨earlier, comment, later, rest, isComment, by omega, by omega⟩
  · rintro (⟨isComment, ended⟩ | ⟨past, earlier, comment, later, parts, isComment, begun, ended⟩)
    · exact ⟨[], segment, segments, rfl, isComment, Nat.zero_le line, by simpa [textOf] using ended⟩
    · refine ⟨segment :: earlier, comment, later, by rw [parts]; rfl, isComment, ?_, ?_⟩
      · rw [text_of_cons, List.count_append]
        omega
      · rw [text_of_cons, List.count_append]
        omega

def decideCommentOn : (segments : List Segment) → (line : Nat) → Decidable (CommentOn segments line)
  | [], _ => isFalse fun ⟨_, _, _, parts, _⟩ => by simp at parts
  | segment :: segments, line =>
    have := decideCommentOn segments (line - segment.text.count '\n')
    decidable_of_iff _ comment_on_cons.symm

instance (segments : List Segment) : DecidablePred (CommentOn segments) :=
  decideCommentOn segments

/- What a segment does to the flags. -/

theorem flags_pass {marks : List Mark} (flag : Bool) (rest : List Mark)
    (silent : signals marks = []) : commentFlags flag (marks ++ rest) = commentFlags flag rest := by
  have whole : signals (marks ++ rest) = signals marks ++ signals rest := by
    simp [signals]
  rw [flags_of_signals, flags_of_signals, whole, silent, List.nil_append]

theorem flags_of_block (body : List Char) (rest : List Mark) :
    commentFlags true (body.map blockMark ++ rest) =
      List.replicate (body.count '\n') true ++ commentFlags true rest := by
  induction body with
  | nil => rfl
  | cons c body ih =>
    by_cases newline : c = '\n'
    · subst newline
      rw [List.count_cons_self, List.replicate_succ, List.cons_append, ← ih]
      rfl
    · rw [List.count_cons_of_ne newline, ← ih]
      simp [blockMark, newline, commentFlags]

theorem newlines_of_literal {q : Quote} {body rest : List Char} {closed : Bool}
    (fits : (Segment.literal q body closed).FitsBefore rest) :
    (Segment.literal q body closed).text.count '\n' = 0 := by
  have quote := (quote_is_ordinary q).2.1.symm
  cases closed <;> simp [Segment.text, List.count_eq_zero, quote, literal_in_one_line fits]

/-- Of the lines that a segment ends, all have a comment if it is one, and otherwise only the first
can have had one before it. -/
theorem flags_of_segment {rest : List Char} (fits : segment.FitsBefore rest) (flag : Bool)
    (more : List Mark) : commentFlags flag (segment.marks ++ more) =
      List.replicate (segment.text.count '\n') (flag || segment.isComment) ++
        commentFlags (segment.isComment || flag && segment.text.count '\n' == 0) more := by
  cases segment with
  | plain c =>
    by_cases newline : c = '\n'
    · subst newline
      simp [Segment.marks, Segment.text, Segment.isComment, plainMark, commentFlags]
    · simp [Segment.marks, Segment.text, Segment.isComment, plainMark, commentFlags, newline]
  | lineComment body =>
    have inLine : (Segment.lineComment body).text.count '\n' = 0 := by
      simp [Segment.text, List.count_eq_zero, fits.1]
    rw [inLine]
    have silent : signals (⟨'/', .hidden⟩ :: body.map (⟨·, .comment⟩)) = [] := by
      simp [signals, Role.signals]
    have passed := flags_pass true more silent
    simpa [Segment.marks, Segment.isComment, commentFlags] using passed
  | blockComment body closed =>
    cases closed with
    | true =>
      have passed := flags_of_block body (⟨'*', .hidden⟩ :: ⟨'/', .closer⟩ :: more)
      simpa [Segment.marks, Segment.text, Segment.isComment, blockEnd, commentFlags] using passed
    | false =>
      have passed := flags_of_block body more
      simpa [Segment.marks, Segment.text, Segment.isComment, commentFlags] using passed
  | literal q body closed =>
    rw [newlines_of_literal fits]
    have silent : signals (Segment.literal q body closed).marks = [] := by
      cases closed <;> simp [signals, Segment.marks, Role.signals]
    have passed := flags_pass flag more silent
    simpa [Segment.isComment] using passed

theorem one_newline {rest : List Char} (fits : segment.FitsBefore rest)
    (code : segment.isComment = false) : segment.text.count '\n' ≤ 1 := by
  cases segment with
  | plain c => exact List.count_le_length
  | lineComment body => exact absurd code (by simp [Segment.isComment])
  | blockComment body closed => exact absurd code (by simp [Segment.isComment])
  | literal q body closed =>
    rw [newlines_of_literal fits]
    exact Nat.zero_le 1

/- The flags of all lines. -/

theorem flag_iff (fit : Segmentation segments) (flag : Bool) (line : Nat) :
    (commentFlags flag (marksOf segments))[line]? = some true ↔
      (line = 0 ∧ flag = true) ∨ CommentOn segments line := by
  induction segments generalizing flag line with
  | nil =>
    have none : ¬ CommentOn [] line := by
      intro ⟨earlier, comment, later, parts, _⟩
      simp at parts
    cases line <;> simp [marksOf, commentFlags, none]
  | cons segment segments ih =>
    have marks : marksOf (segment :: segments) = segment.marks ++ marksOf segments := rfl
    have bound := one_newline fit.1
    rw [marks, flags_of_segment fit.1, comment_on_cons]
    by_cases within : line < segment.text.count '\n'
    · rw [List.getElem?_append_left (by simpa using within)]
      simp only [List.getElem?_replicate, within, if_true, Option.some.injEq, Bool.or_eq_true]
      constructor
      · rintro (flagged | isComment)
        · cases isComment : segment.isComment with
          | true => exact Or.inr (Or.inl ⟨rfl, within.le⟩)
          | false =>
            have one := bound isComment
            exact Or.inl ⟨by omega, flagged⟩
        · exact Or.inr (Or.inl ⟨isComment, within.le⟩)
      · rintro (⟨-, flagged⟩ | ⟨isComment, -⟩ | ⟨past, -⟩)
        · exact Or.inl flagged
        · exact Or.inr isComment
        · omega
    · rw [List.getElem?_append_right (by simpa using within), List.length_replicate, ih fit.2]
      have past : segment.text.count '\n' ≤ line := not_lt.mp within
      constructor
      · rintro (⟨first, flagged⟩ | later)
        · rw [Bool.or_eq_true, Bool.and_eq_true, beq_iff_eq] at flagged
          rcases flagged with isComment | ⟨flagged, none⟩
          · exact Or.inr (Or.inl ⟨isComment, by omega⟩)
          · exact Or.inl ⟨by omega, flagged⟩
        · exact Or.inr (Or.inr ⟨past, later⟩)
      · rintro (⟨first, flagged⟩ | ⟨isComment, le⟩ | ⟨-, later⟩)
        · have none : segment.text.count '\n' = 0 := by omega
          exact Or.inl ⟨by omega, by simp [flagged, none]⟩
        · exact Or.inl ⟨by omega, by simp [isComment]⟩
        · exact Or.inr later

theorem flags_length (fit : Segmentation segments) (flag : Bool) :
    (commentFlags flag (marksOf segments)).length = (textOf segments).count '\n' + 1 := by
  induction segments generalizing flag with
  | nil => rfl
  | cons segment segments ih =>
    have marks : marksOf (segment :: segments) = segment.marks ++ marksOf segments := rfl
    rw [marks, flags_of_segment fit.1, List.length_append, List.length_replicate, ih fit.2,
      text_of_cons, List.count_append, Nat.add_assoc]

theorem flags_of_lines (fit : Segmentation segments) :
    commentFlags false (marksOf segments) =
      (List.range ((textOf segments).count '\n' + 1)).map (decide <| CommentOn segments ·) := by
  apply List.ext_getElem
  · rw [flags_length fit, List.length_map, List.length_range]
  · intro line bound bound'
    have flagged := flag_iff fit false line
    rw [List.getElem?_eq_getElem bound, Option.some_inj] at flagged
    rw [List.getElem_map, List.getElem_range, Bool.eq_iff_iff, flagged]
    simp

theorem last_piece_empty {cs last : List Char} {pieces : List (List Char)}
    (split : Text.splitOn '\n' cs = pieces ++ [last]) :
    last = [] ↔ cs = [] ∨ cs.getLast? = some '\n' := by
  rcases List.eq_nil_or_concat cs with rfl | ⟨start, c, rfl⟩
  · have alone : pieces = [] ∧ last = [] := by
      cases pieces <;> simp_all [Text.splitOn]
    simp [alone.2]
  · rw [List.concat_eq_append] at *
    by_cases newline : c = '\n'
    · subst newline
      rw [Text.split_eq, List.splitOn_append_cons_self] at split
      have none : last = [] := (List.singleton_inj.mp (List.append_inj' split rfl).2).symm
      simp [none]
    · obtain ⟨pieces', last', -, split'⟩ := Text.split_snoc newline start
      rw [split] at split'
      have same : last = last' ++ [c] := List.singleton_inj.mp (List.append_inj' split' rfl).2
      simp [same, newline]

/-- The text ends with a newline, and a block comment goes on after it. -/
def OpenAfterNewline (segments : List Segment) : Prop :=
  ∃ body, segments.getLast? = some (.blockComment (body ++ ['\n']) false)

theorem open_ends_with_newline (openEnd : OpenAfterNewline segments) :
    (textOf segments).getLast? = some '\n' := by
  obtain ⟨body, last⟩ := openEnd
  obtain ⟨earlier, rfl⟩ := List.getLast?_eq_some_iff.mp last
  rw [text_of_append]
  simp [textOf, Segment.text, List.getLast?_cons]

theorem comment_ends_with_newline {rest : List Char} (fits : segment.FitsBefore rest)
    (isComment : segment.isComment = true) (newline : segment.text.getLast? = some '\n') :
    ∃ body, segment = .blockComment (body ++ ['\n']) false := by
  cases segment with
  | plain c => exact absurd isComment (by simp [Segment.isComment])
  | literal q body closed => exact absurd isComment (by simp [Segment.isComment])
  | lineComment body =>
    have inside : '\n' ∈ (Segment.lineComment body).text := List.mem_of_getLast? newline
    exact absurd inside (by simp [Segment.text, fits.1])
  | blockComment body closed =>
    cases closed with
    | true => exact absurd newline (by simp [Segment.text, blockEnd, List.getLast?_cons])
    | false =>
      rcases List.eq_nil_or_concat body with rfl | ⟨start, c, rfl⟩
      · exact absurd newline (by simp [Segment.text])
      · have same : c = '\n' := by simpa [Segment.text, List.getLast?_cons] using newline
        exact ⟨start, by rw [same, List.concat_eq_append]⟩

theorem comment_after_newline (fit : Segmentation segments)
    (newline : (textOf segments).getLast? = some '\n') :
    CommentOn segments ((textOf segments).count '\n') ↔ OpenAfterNewline segments := by
  constructor
  · intro reached
    obtain ⟨earlier, comment, later, rfl, isComment, -, reaches⟩ := reached
    rw [text_of_append, text_of_cons] at newline reaches
    simp only [List.count_append] at reaches
    have none : (textOf later).count '\n' = 0 := by omega
    -- What came after the comment would end with the newline.
    cases later with
    | nil =>
      obtain ⟨c, cs, text⟩ := segment_text_cons comment
      have ends : comment.text.getLast? = some '\n' := by
        rw [text] at newline ⊢
        simpa [textOf] using newline
      obtain ⟨body, rfl⟩ := comment_ends_with_newline (fits_of_member fit) isComment ends
      exact ⟨body, by simp⟩
    | cons next later =>
      obtain ⟨c, cs, text⟩ := segment_text_cons next
      have ends : (textOf (next :: later)).getLast? = some '\n' := by
        rw [text_of_cons, text] at newline ⊢
        simpa [List.getLast?_append] using newline
      exact absurd (List.mem_of_getLast? ends) (List.count_eq_zero.mp none)
  · intro openEnd
    obtain ⟨body, last⟩ := openEnd
    obtain ⟨earlier, rfl⟩ := List.getLast?_eq_some_iff.mp last
    refine ⟨earlier, _, [], rfl, rfl, ?_, ?_⟩
    · rw [text_of_append, List.count_append]
      exact Nat.le_add_right _ _
    · rw [text_of_append, List.count_append]
      simp [textOf]

theorem comment_past_lines (fit : Segmentation segments)
    (ended : textOf segments = [] ∨ (textOf segments).getLast? = some '\n') :
    CommentOn segments ((textOf segments).count '\n') ↔ OpenAfterNewline segments := by
  rcases ended with none | newline
  · cases segments with
    | nil =>
      constructor
      · intro ⟨earlier, comment, later, parts, _⟩
        simp at parts
      · intro ⟨body, last⟩
        simp at last
    | cons segment segments =>
      obtain ⟨c, cs, text⟩ := segment_text_cons segment
      simp [text_of_cons, text] at none
  · exact comment_after_newline fit newline

theorem reached_succ (segments : List Segment) (lines : Nat) :
    (List.range (lines + 1)).countP (CommentOn segments ·) =
      (List.range lines).countP (CommentOn segments ·) +
        if CommentOn segments lines then 1 else 0 := by
  rw [List.range_succ, List.countP_append, List.countP_singleton]
  simp

theorem reached_le (segments : List Segment) (lines : Nat) :
    (List.range lines).countP (CommentOn segments ·) ≤ lines := by
  have le := List.countP_le_length (p := (CommentOn segments ·)) (l := List.range lines)
  rwa [List.length_range] at le

theorem commented_lines {text : String} (filename : String) (fit : Segmentation segments)
    (whole : textOf segments = Text.withoutCarriageReturns text.toList) :
    let s := prepare text filename
    let reached := (List.range s.totalLines).countP (CommentOn segments ·)
    (¬ OpenAfterNewline segments → s.commentLines = reached) ∧
      (OpenAfterNewline segments → s.commentLines = min (reached + 1) s.totalLines) := by
  intro s reached
  obtain ⟨pieces, last, split, lines⟩ := Text.lines_of_normalised text.toList
  rw [← whole] at split
  have newlines : (textOf segments).count '\n' = pieces.length := by
    have length := Text.split_length '\n' (textOf segments)
    rw [split] at length
    simpa using length.symm
  have counted : s.commentLines =
      min ((List.range (pieces.length + 1)).countP (CommentOn segments ·)) s.totalLines := by
    have flags : (commentFlags false (marksIn text)).count true =
        (List.range (pieces.length + 1)).countP (CommentOn segments ·) := by
      rw [marks_of_text fit whole.symm, flags_of_lines fit, newlines, List.count, List.countP_map]
      simp [Function.comp_def]
    rw [← flags]
    rfl
  have total : s.totalLines = pieces.length + if last = [] then 0 else 1 := by
    rw [total_lines_of_text, lines]
    split <;> simp
  have ended := last_piece_empty split
  have le : reached ≤ s.totalLines := reached_le segments s.totalLines
  by_cases none : last = []
  · have past := comment_past_lines fit (ended.mp none)
    rw [if_pos none, Nat.add_zero] at total
    rw [reached_succ, ← total] at counted
    rw [newlines, ← total] at past
    constructor
    · intro closed
      rw [if_neg (fun reaches => closed (past.mp reaches))] at counted
      omega
    · intro openEnd
      rw [if_pos (past.mpr openEnd)] at counted
      exact counted
  · rw [if_neg none] at total
    rw [← total] at counted
    constructor
    · intro _
      omega
    · intro openEnd
      exact absurd (ended.mpr (Or.inr (open_ends_with_newline openEnd))) none

/-- The lines of comments are the physical lines that a comment is on. Where the text ends with a
newline in a block comment one more is counted, if there are that many lines. -/
theorem comment_lines_are_reached (text filename : String) :
    let s := prepare text filename
    ∃ segments, Segmentation segments ∧
      textOf segments = Text.withoutCarriageReturns text.toList ∧
      let reached := (List.range s.totalLines).countP (CommentOn segments ·)
      (¬ OpenAfterNewline segments → s.commentLines = reached) ∧
      (OpenAfterNewline segments → s.commentLines = min (reached + 1) s.totalLines) := by
  intro s
  obtain ⟨segments, fit, whole⟩ :=
    every_text_has_a_segmentation (Text.withoutCarriageReturns text.toList)
  exact ⟨segments, fit, whole, commented_lines filename fit whole⟩

/-- One line of code, one on which a comment begins, and no third one. -/
theorem piece_after_newline_counted :
    let s := prepare "a;\n/* b\n" "a.c"
    let segments : List Segment :=
      [.plain 'a', .plain ';', .plain '\n', .blockComment [' ', 'b', '\n'] false]
    Segmentation segments ∧ textOf segments = Text.withoutCarriageReturns "a;\n/* b\n".toList ∧
      s.totalLines = 2 ∧ (List.range s.totalLines).countP (CommentOn segments ·) = 1 ∧
      s.commentLines = 2 := by
  intro s segments
  refine ⟨⟨rfl, rfl, rfl, ⟨by decide, rfl⟩, trivial⟩, by decide, by decide, by decide, by decide⟩

end Authorship.Source
