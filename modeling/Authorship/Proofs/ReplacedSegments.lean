import Authorship.Proofs.PreparedAgain

/-
One segment of a text in place of another. The segments around it stay what they are if the new one
begins as the old one did, so that what is read off the text changes only where the two segments
differ.
-/
namespace Authorship

namespace Text

theorem join_meet (separator : Char) (pieces : List (List Char)) (last first : List Char)
    (rest : List (List Char)) : joinWith separator (pieces ++ (last ++ first) :: rest) =
      joinWith separator (pieces ++ [last]) ++ joinWith separator (first :: rest) := by
  induction pieces with
  | nil => cases rest <;> simp [joinWith]
  | cons piece pieces ih =>
    rw [List.cons_append, List.cons_append, join_cons piece (by simp), join_cons piece (by simp),
      ih]
    simp

theorem split_meet {separator : Char} {cs more last first : List Char}
    {pieces rest : List (List Char)} (split : splitOn separator cs = pieces ++ [last])
    (split' : splitOn separator more = first :: rest) :
    splitOn separator (cs ++ more) = pieces ++ (last ++ first) :: rest := by
  have whole := pieces_whole separator cs
  have whole' := pieces_whole separator more
  rw [split] at whole
  rw [split'] at whole'
  have joined : joinWith separator (pieces ++ (last ++ first) :: rest) = cs ++ more := by
    rw [join_meet, ← split, ← split', join_split, join_split]
  rw [← joined]
  apply split_joined (by simp)
  intro piece member
  simp only [List.mem_append, List.mem_cons, List.not_mem_nil, or_false] at member whole whole'
  rcases member with before | rfl | after
  · exact whole piece (Or.inl before)
  · rw [List.mem_append, not_or]
    exact ⟨whole last (Or.inr rfl), whole' first (Or.inl rfl)⟩
  · exact whole' piece (Or.inr after)

/-- What holds no separator lies within one piece, and the other pieces do not depend on it. -/
theorem split_around (separator : Char) (cs more : List Char) : ∃ pieces last first rest,
    ∀ inner, separator ∉ inner →
      splitOn separator (cs ++ (inner ++ more)) = pieces ++ (last ++ (inner ++ first)) :: rest := by
  obtain ⟨pieces, last, split⟩ := split_last separator cs
  obtain ⟨first, rest, split'⟩ := split_begins separator more
  refine ⟨pieces, last, first, rest, ?_⟩
  intro inner whole
  have alone : splitOn separator inner = [] ++ [inner] := by
    rw [split_eq, List.splitOn_eq_singleton whole]
    rfl
  exact split_meet split (split_meet alone split')

theorem line_count_replaced {c d : Char} (before after : List Char) (newline : c ≠ '\n')
    (newline' : d ≠ '\n') :
    (lines (before ++ c :: after)).length = (lines (before ++ d :: after)).length := by
  obtain ⟨pieces, last, first, rest, split⟩ := split_around '\n' before after
  have old := split [c] (by simpa using Ne.symm newline)
  have new := split [d] (by simpa using Ne.symm newline')
  rw [List.singleton_append] at old new
  obtain rfl | ⟨more, ending, rfl⟩ := List.eq_nil_or_concat rest
  · rw [lines_of_split old, lines_of_split new]
    simp
  · rw [List.concat_eq_append, ← List.cons_append, ← List.append_assoc] at old new
    rw [lines_of_split old, lines_of_split new]
    simp

theorem returns_around {c : Char} (before after : List Char) (newline : c ≠ '\n') :
    withoutCarriageReturns (before ++ c :: after) =
      withoutCarriageReturns before ++ withoutCarriageReturns (c :: after) :=
  returns_append after (Or.inr newline)

/- The second is the carriage return of a newline. -/
theorem returns_next (c : Char) (after : List Char) :
    withoutCarriageReturns (c :: after) = c :: withoutCarriageReturns after ∨
      withoutCarriageReturns (c :: after) = withoutCarriageReturns after := by
  by_cases ending : c = '\r' ∧ after.head? = some '\n'
  · obtain ⟨rfl, next⟩ := ending
    obtain ⟨rest, rfl⟩ := List.head?_eq_some_iff.mp next
    right
    rw [withoutCarriageReturns, returns_cons _ (by decide)]
  · left
    rw [withoutCarriageReturns]
    rintro rest rfl rfl
    exact ending ⟨rfl, rfl⟩

theorem returns_kept {c : Char} {after rest : List Char}
    (kept : withoutCarriageReturns (c :: after) = c :: rest) :
    withoutCarriageReturns after = rest := by
  by_cases ending : c = '\r' ∧ after.head? = some '\n'
  · obtain ⟨rfl, next⟩ := ending
    obtain ⟨more, rfl⟩ := List.head?_eq_some_iff.mp next
    rw [withoutCarriageReturns] at kept
    exact absurd (List.cons.inj kept).1 (by decide)
  · rw [withoutCarriageReturns] at kept
    · exact (List.cons.inj kept).2
    · rintro more rfl rfl
      exact ending ⟨rfl, rfl⟩

end Text

namespace Source

theorem at_line_end_of_head {rest rest' : List Char} (same : rest.head? = rest'.head?)
    (ends : AtLineEnd rest) : AtLineEnd rest' := by
  rcases ends with rfl | ⟨after, rfl⟩
  · left
    exact List.head?_eq_none_iff.mp same.symm
  · right
    exact List.head?_eq_some_iff.mp same.symm

theorem fits_of_head {segment : Segment} {rest rest' : List Char} (same : rest.head? = rest'.head?)
    (fits : segment.FitsBefore rest) : segment.FitsBefore rest' := by
  cases segment with
  | plain c =>
    have plain : opening (c :: rest) = .plain := fits
    have plain' : opening (c :: rest') = .plain := by
      rw [plain_iff] at plain ⊢
      rwa [← same]
    exact plain'
  | lineComment body => exact ⟨fits.1, at_line_end_of_head same fits.2⟩
  | blockComment body closed =>
    cases closed with
    | true => exact fits
    | false =>
      obtain ⟨unclosed, rfl⟩ := fits
      exact ⟨unclosed, List.head?_eq_none_iff.mp same.symm⟩
  | literal q body closed =>
    cases closed with
    | true => exact fits
    | false => exact ⟨fits.1, at_line_end_of_head same fits.2⟩

theorem text_of_append (segments more : List Segment) :
    textOf (segments ++ more) = textOf segments ++ textOf more := List.flatMap_append

theorem head_of_segments (segment : Segment) (segments : List Segment) :
    (textOf (segment :: segments)).head? = segment.text.head? := by
  obtain ⟨c, cs, h⟩ := segment_text_cons segment
  rw [text_of_cons, h]
  rfl

theorem head_replaced {segment segment' : Segment} (earlier later : List Segment)
    (first : segment.text.head? = segment'.text.head?) :
    (textOf (earlier ++ segment :: later)).head? =
      (textOf (earlier ++ segment' :: later)).head? := by
  cases earlier with
  | nil => exact (head_of_segments _ _).trans (first.trans (head_of_segments _ _).symm)
  | cons s earlier => exact (head_of_segments _ _).trans (head_of_segments _ _).symm

theorem segmentation_replaced {earlier later : List Segment} {segment segment' : Segment}
    (fit : Segmentation (earlier ++ segment :: later))
    (first : segment.text.head? = segment'.text.head?)
    (fits : segment.FitsBefore (textOf later) → segment'.FitsBefore (textOf later)) :
    Segmentation (earlier ++ segment' :: later) := by
  induction earlier with
  | nil => exact ⟨fits fit.1, fit.2⟩
  | cons s earlier ih => exact ⟨fits_of_head (head_replaced earlier later first) fit.1, ih fit.2⟩

theorem fits_of_member {earlier later : List Segment} {segment : Segment}
    (fit : Segmentation (earlier ++ segment :: later)) : segment.FitsBefore (textOf later) := by
  induction earlier with
  | nil => exact fit.1
  | cons s earlier ih => exact ih fit.2

/- What is read off segments, one of which is replaced. -/

theorem masked_of_segments {segments : List Segment} (fit : Segmentation segments) :
    maskedText (scan .code (textOf segments)) = segments.flatMap Segment.masked := by
  rw [scan_segments fit, maskedText, marksOf, List.filterMap_flatMap]
  exact congrArg (List.flatMap · segments) (funext masked_of_segment)

theorem read_alike {β : Type} {read : Segment → List β} {segment segment' : Segment}
    (same : read segment = read segment') (earlier later : List Segment) :
    (earlier ++ segment :: later).flatMap read = (earlier ++ segment' :: later).flatMap read := by
  rw [List.flatMap_append, List.flatMap_append, List.flatMap_cons, List.flatMap_cons, same]

/-- Whether a role has a part in which lines carry comments. -/
def Role.signals : Role → Bool
  | .newline _ | .lineOpener | .blockOpener => true
  | .code | .content | .comment | .hidden | .closer => false

def signals (marks : List Mark) : List Role := (marks.map (·.role)).filter Role.signals

def flagsOf (flag : Bool) : List Role → List Bool
  | [] => [flag]
  | .newline inBlock :: roles => flag :: flagsOf inBlock roles
  | _ :: roles => flagsOf true roles

theorem flags_of_signals (flag : Bool) (marks : List Mark) :
    commentFlags flag marks = flagsOf flag (signals marks) := by
  induction marks generalizing flag with
  | nil => rfl
  | cons m marks ih =>
    obtain ⟨char, role⟩ := m
    cases role <;>
      simp [commentFlags, signals, Role.signals, flagsOf, List.filter_cons, ih]

theorem signals_of_segments (segments : List Segment) :
    signals (marksOf segments) = segments.flatMap fun segment => signals segment.marks := by
  simp only [signals, marksOf, List.map_flatMap, List.filter_flatMap]

theorem marks_of_text {text : String} {segments : List Segment} (fit : Segmentation segments)
    (whole : Text.withoutCarriageReturns text.toList = textOf segments) :
    marksIn text = marksOf segments := by
  rw [marksIn, whole, scan_segments fit]

/- Two texts, and what is prepared of them. -/

variable {text text' : String} {earlier later : List Segment} {segment segment' : Segment}

structure Replacement (text text' : String) (earlier : List Segment) (segment segment' : Segment)
    (later : List Segment) : Prop where
  fit : Segmentation (earlier ++ segment :: later)
  fit' : Segmentation (earlier ++ segment' :: later)
  whole : Text.withoutCarriageReturns text.toList = textOf (earlier ++ segment :: later)
  whole' : Text.withoutCarriageReturns text'.toList = textOf (earlier ++ segment' :: later)
  lines : (Text.lines text.toList).length = (Text.lines text'.toList).length

theorem text_around {c : Char} {before after start body : List Char} (inLine : c ≠ '\n')
    (begins : Text.withoutCarriageReturns before = textOf earlier ++ start)
    (goesOn : Text.withoutCarriageReturns (c :: after) = body ++ textOf later)
    (form : segment.text = start ++ body) :
    Text.withoutCarriageReturns (String.ofList (before ++ c :: after)).toList =
      textOf (earlier ++ segment :: later) := by
  rw [String.toList_ofList, Text.returns_around before after inLine, begins, goesOn,
    text_of_append, text_of_cons, form]
  simp only [List.append_assoc]

theorem character_replaced {c d opener : Char} {before after start body body' : List Char}
    (fit : Segmentation (earlier ++ segment :: later))
    (fits : segment.FitsBefore (textOf later) → segment'.FitsBefore (textOf later))
    (inLine : c ≠ '\n') (inLine' : d ≠ '\n')
    (begins : Text.withoutCarriageReturns before = textOf earlier ++ opener :: start)
    (goesOn : Text.withoutCarriageReturns (c :: after) = body ++ textOf later)
    (goesOn' : Text.withoutCarriageReturns (d :: after) = body' ++ textOf later)
    (form : segment.text = opener :: start ++ body)
    (form' : segment'.text = opener :: start ++ body') :
    Replacement (String.ofList (before ++ c :: after)) (String.ofList (before ++ d :: after))
      earlier segment segment' later := by
  constructor
  · exact fit
  · apply segmentation_replaced fit _ fits
    rw [form, form']
    rfl
  · exact text_around inLine begins goesOn form
  · exact text_around inLine' begins goesOn' form'
  · rw [String.toList_ofList, String.toList_ofList]
    exact Text.line_count_replaced before after inLine inLine'

theorem code_replaced (r : Replacement text text' earlier segment segment' later)
    (code : segment.code = segment'.code) : codeText (marksIn text) = codeText (marksIn text') := by
  rw [marksIn, marksIn, r.whole, r.whole', code_of_segments r.fit, code_of_segments r.fit',
    read_alike code]

theorem masked_replaced (r : Replacement text text' earlier segment segment' later)
    (masked : segment.masked = segment'.masked) :
    maskedText (marksIn text) = maskedText (marksIn text') := by
  rw [marksIn, marksIn, r.whole, r.whole', masked_of_segments r.fit, masked_of_segments r.fit',
    read_alike masked]

theorem comment_lines_replaced (r : Replacement text text' earlier segment segment' later)
    (same : signals segment.marks = signals segment'.marks) (filename : String) :
    (prepare text filename).commentLines = (prepare text' filename).commentLines := by
  have flags : commentFlags false (marksIn text) = commentFlags false (marksIn text') := by
    rw [flags_of_signals, flags_of_signals, marks_of_text r.fit r.whole,
      marks_of_text r.fit' r.whole', signals_of_segments, signals_of_segments, read_alike same]
  rw [comment_lines_of_marks, comment_lines_of_marks, flags, r.lines]

/- Of the code, masked lines show which of its lines are blank. -/
theorem masked_lines_alike {marks marks' : List Mark}
    (masked : maskedText marks = maskedText marks')
    (visible : (Text.splitOn '\n' (codeText marks)).map (!Text.isBlankLine ·) =
      (Text.splitOn '\n' (codeText marks')).map (!Text.isBlankLine ·)) :
    (keptLines marks).map (·.2) = (keptLines marks').map (·.2) := by
  have seconds (marks : List Mark) : (keptLines marks).map (·.2) =
      ((((Text.splitOn '\n' (codeText marks)).map (!Text.isBlankLine ·)).zip
        (Text.splitOn '\n' (maskedText marks))).filter (·.1)).map (Text.trimEnd ·.2) := by
    rw [← kept_seconds, keptLines, List.map_map]
    rfl
  rw [seconds, seconds, visible, masked]

structure SameMasked (s s' : Prepared) : Prop where
  maskedLines : s.maskedLines = s'.maskedLines
  functions : s.functions = s'.functions
  commentLines : s.commentLines = s'.commentLines

theorem same_masked (r : Replacement text text' earlier segment segment' later)
    (masked : segment.masked = segment'.masked)
    (visible : (Text.splitOn '\n' (codeText (marksIn text))).map (!Text.isBlankLine ·) =
      (Text.splitOn '\n' (codeText (marksIn text'))).map (!Text.isBlankLine ·))
    (same : signals segment.marks = signals segment'.marks) (filename : String) :
    SameMasked (prepare text filename) (prepare text' filename) := by
  have maskedLines :
      (prepare text filename).maskedLines = (prepare text' filename).maskedLines := by
    rw [masked_lines_kept, masked_lines_kept,
      masked_lines_alike (masked_replaced r masked) visible]
  constructor
  · exact maskedLines
  · rw [functions_of_masked, functions_of_masked, maskedLines]
  · exact comment_lines_replaced r same filename

end Source

end Authorship
