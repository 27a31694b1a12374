import Authorship.Proofs.Segments

/-
The scanner goes over a text once, with a state. Its marks are those of the text's segments, and so
what is code, what is masked and what the line comments say can be told segment by segment.
-/
namespace Authorship.Source

def Segment.code : Segment → List Char
  | .plain c => [c]
  | .lineComment _ => []
  | .blockComment body closed => body.filter (· = '\n') ++ if closed then [' '] else []
  | .literal q body closed => (Segment.literal q body closed).text

def Segment.masked : Segment → List Char
  | .literal q body closed =>
    q.char :: body.map (fun _ => ' ') ++ if closed then [q.char] else []
  | segment => segment.code

def Segment.lineComment? : Segment → Option (List Char)
  | .lineComment body => some body
  | _ => none

def plainMark (c : Char) : Mark := ⟨c, if c = '\n' then .newline false else .code⟩

def blockMark (c : Char) : Mark := ⟨c, if c = '\n' then .newline true else .hidden⟩

def Segment.marks : Segment → List Mark
  | .plain c => [plainMark c]
  | .lineComment body => ⟨'/', .lineOpener⟩ :: ⟨'/', .hidden⟩ :: body.map (⟨·, .comment⟩)
  | .blockComment body closed =>
    ⟨'/', .blockOpener⟩ :: ⟨'*', .hidden⟩ :: body.map blockMark ++
      if closed then [⟨'*', .hidden⟩, ⟨'/', .closer⟩] else []
  | .literal q body closed =>
    ⟨q.char, .code⟩ :: body.map (⟨·, .content⟩) ++ if closed then [⟨q.char, .code⟩] else []

/- The scanner inside each kind of segment. -/

attribute [grind =] scan

theorem scan_plain {c : Char} {cs : List Char} (plain : opening (c :: cs) = .plain) :
    scan .code (c :: cs) = plainMark c :: scan .code cs := by
  by_cases newline : c = '\n'
  · subst newline
    rfl
  · rw [scan]
    · simp [plainMark, newline]
    all_goals
      intros
      simp_all [opening]

theorem scan_line_end {mode : Mode} {rest : List Char} (ends : AtLineEnd rest)
    (outside : mode ≠ .blockComment) : scan mode rest = scan .code rest := by
  rcases ends with rfl | ⟨after, rfl⟩
  · simp [scan]
  · cases mode <;> simp_all [scan]

theorem scan_line_comment {body : List Char} (rest : List Char) (inLine : '\n' ∉ body) :
    scan .lineComment (body ++ rest) =
      body.map (⟨·, .comment⟩) ++ scan .lineComment rest := by
  induction body with
  | nil => rfl
  | cons c body ih =>
    simp only [List.mem_cons, not_or] at inLine
    rw [List.cons_append, scan, ih inLine.2]
    · rfl
    · exact Ne.symm inLine.1

theorem scan_block_step {c : Char} {cs : List Char} (inside : ¬ (c = '*' ∧ cs.head? = some '/')) :
    scan .blockComment (c :: cs) = blockMark c :: scan .blockComment cs := by
  by_cases newline : c = '\n'
  · subst newline
    rfl
  · rw [scan]
    · simp [blockMark, newline]
    · exact newline
    · rintro rest rfl rfl
      exact inside ⟨rfl, rfl⟩

theorem scan_block_comment {body rest : List Char}
    (inside : ¬ blockEnd <:+: body ++ rest.take 1) :
    scan .blockComment (body ++ rest) = body.map blockMark ++ scan .blockComment rest := by
  induction body with
  | nil => rfl
  | cons c body ih =>
    rw [List.cons_append, no_closer_cons] at inside
    rw [List.cons_append, scan_block_step, ih inside.2]
    · rfl
    · cases body <;> cases rest <;> simp_all

theorem scan_content {q : Quote} {body : List Char} (rest : List Char) (content : Content q body) :
    scan (.literal q) (body ++ rest) =
      body.map (⟨·, .content⟩) ++ scan (.literal q) rest := by
  induction content with
  | nil => rfl
  | ordinary escape quote newline more ih =>
    rw [List.cons_append, scan, ih]
    · simp [quote]
    all_goals simp_all
  | escaped newline more ih =>
    rw [List.cons_append, List.cons_append, scan, ih]
    · rfl
    · exact newline

theorem scan_cut_off {q : Quote} {body rest : List Char} (cut : CutOff q body)
    (ends : AtLineEnd rest) :
    scan (.literal q) (body ++ rest) = body.map (⟨·, .content⟩) ++ scan .code rest := by
  rcases cut with content | ⟨held, rfl, content⟩
  · rw [scan_content rest content, scan_line_end ends (by simp)]
  · rw [List.append_assoc, scan_content _ content]
    rcases ends with rfl | ⟨after, rfl⟩
    · cases q <;> simp [scan, Quote.char]
    · simp [scan]

theorem scan_segment {segment : Segment} {rest : List Char} (fits : segment.FitsBefore rest) :
    scan .code (segment.text ++ rest) = segment.marks ++ scan .code rest := by
  cases segment with
  | plain c => exact scan_plain fits
  | lineComment body =>
    have inside := scan_line_comment rest fits.1
    rw [scan_line_end fits.2 (by simp)] at inside
    simp [Segment.text, Segment.marks, scan, inside]
  | blockComment body closed =>
    cases closed with
    | true =>
      have inside := @scan_block_comment body (blockEnd ++ rest) fits
      simp only [blockEnd, List.cons_append, List.nil_append, scan] at inside
      simp [Segment.text, Segment.marks, blockEnd, scan, inside]
    | false =>
      obtain ⟨unclosed, rfl⟩ := fits
      have inside := @scan_block_comment body [] (by simpa using unclosed)
      simp_all [Segment.text, Segment.marks, scan]
  | literal q body closed =>
    have opens (cs : List Char) :
        scan .code (q.char :: cs) = ⟨q.char, .code⟩ :: scan (.literal q) cs := by
      cases q <;> rfl
    cases closed with
    | true =>
      have closes : scan (.literal q) (q.char :: rest) = ⟨q.char, .code⟩ :: scan .code rest := by
        cases q <;> rfl
      simp [Segment.text, Segment.marks, opens, scan_content _ fits, closes]
    | false => simp [Segment.text, Segment.marks, opens, scan_cut_off fits.1 fits.2]

def marksOf (segments : List Segment) : List Mark := segments.flatMap Segment.marks

theorem scan_segments {segments : List Segment} (fit : Segmentation segments) :
    scan .code (textOf segments) = marksOf segments := by
  induction segments with
  | nil => simp [textOf, marksOf, scan]
  | cons segment segments ih =>
    rw [text_of_cons, scan_segment fit.1, ih fit.2]
    rfl

/- What is read off the marks of a segment. -/

theorem newlines_of_block (body : List Char) :
    body.filterMap (codeChar? ∘ blockMark) = body.filter (· = '\n') ∧
      body.filterMap (maskedChar? ∘ blockMark) = body.filter (· = '\n') := by
  induction body with
  | nil => exact ⟨rfl, rfl⟩
  | cons c body ih =>
    by_cases newline : c = '\n' <;>
      simp [blockMark, codeChar?, maskedChar?, newline, ih]

theorem code_of_segment (segment : Segment) : codeText segment.marks = segment.code := by
  unfold codeText
  cases segment with
  | plain c =>
    by_cases newline : c = '\n' <;>
      simp [Segment.marks, Segment.code, plainMark, codeChar?, newline]
  | lineComment body => simp [Segment.marks, Segment.code, List.filterMap_cons, codeChar?]
  | blockComment body closed =>
    cases closed <;>
      simp [Segment.marks, Segment.code, List.filterMap_cons, codeChar?, newlines_of_block]
  | literal q body closed =>
    cases closed <;>
      simp [Segment.marks, Segment.code, Segment.text, codeChar?, Function.comp_def]

theorem masked_of_segment (segment : Segment) : maskedText segment.marks = segment.masked := by
  unfold maskedText
  cases segment with
  | plain c =>
    by_cases newline : c = '\n' <;>
      simp [Segment.marks, Segment.masked, Segment.code, plainMark, maskedChar?, newline]
  | lineComment body =>
    simp [Segment.marks, Segment.masked, Segment.code, List.filterMap_cons, maskedChar?]
  | blockComment body closed =>
    cases closed <;>
      simp [Segment.marks, Segment.masked, Segment.code, List.filterMap_cons, maskedChar?,
        newlines_of_block]
  | literal q body closed =>
    cases closed <;>
      simp [Segment.marks, Segment.masked, maskedChar?, Function.comp_def]

/- Only the mark that opens a line comment has the role of one. -/
theorem no_opener_in_code (c : Char) : (plainMark c).role ≠ .lineOpener := by
  unfold plainMark
  split <;> simp

theorem no_opener_in_block (c : Char) : (blockMark c).role ≠ .lineOpener := by
  unfold blockMark
  split <;> simp

theorem line_comments_skip {marks : List Mark} (rest : List Mark)
    (none : ∀ m ∈ marks, m.role ≠ .lineOpener) :
    lineComments (marks ++ rest) = lineComments rest := by
  induction marks with
  | nil => rfl
  | cons m marks ih =>
    rw [List.cons_append, lineComments, if_neg (none m List.mem_cons_self)]
    exact ih fun m' h => none m' (List.mem_cons_of_mem m h)

theorem marks_begin_anew (segments : List Segment) (m : Mark)
    (first : (marksOf segments).head? = some m) : m.role ≠ .comment := by
  cases segments with
  | nil => simp [marksOf] at first
  | cons segment segments =>
    cases segment <;> simp [marksOf, Segment.marks, plainMark] at first <;> subst first <;> simp
    split <;> simp

theorem line_comments_of_segment (segment : Segment) (segments : List Segment) :
    lineComments (segment.marks ++ marksOf segments) =
      segment.lineComment?.toList ++ lineComments (marksOf segments) := by
  cases segment with
  | lineComment body =>
    have stops : (marksOf segments).takeWhile (·.role = .comment) = [] := by
      cases first : marksOf segments with
      | nil => rfl
      | cons m marks =>
        have other := marks_begin_anew segments m (by rw [first]; rfl)
        simp [other]
    have skipped := @line_comments_skip (⟨'/', .hidden⟩ :: body.map (⟨·, .comment⟩))
      (marksOf segments) (by simp)
    simp_all [Segment.marks, Segment.lineComment?, lineComments, Function.comp_def]
  | plain c => exact line_comments_skip _ (by simp [Segment.marks, no_opener_in_code])
  | blockComment body closed =>
    refine line_comments_skip _ fun m member => ?_
    simp only [Segment.marks] at member
    grind [no_opener_in_block]
  | literal q body closed =>
    refine line_comments_skip _ fun m member => ?_
    simp only [Segment.marks] at member
    grind

theorem line_comments_of_segments (segments : List Segment) :
    lineComments (marksOf segments) = segments.filterMap Segment.lineComment? := by
  induction segments with
  | nil => rfl
  | cons segment segments ih =>
    rw [show marksOf (segment :: segments) = segment.marks ++ marksOf segments from rfl,
      line_comments_of_segment, ih]
    cases h : segment.lineComment? <;> simp [h]

theorem code_of_segments {segments : List Segment} (fit : Segmentation segments) :
    codeText (scan .code (textOf segments)) = segments.flatMap Segment.code := by
  rw [scan_segments fit, codeText, marksOf, List.filterMap_flatMap]
  exact congrArg (List.flatMap · segments) (funext code_of_segment)

/-- Every text has exactly one segmentation, and what the scanner makes of the text is read off
its segments. -/
theorem scan_agrees_with_segments (text : List Char) :
    ∃ segments, (∀ other, Segmentation other ∧ textOf other = text ↔ other = segments) ∧
      codeText (scan .code text) = segments.flatMap Segment.code ∧
      maskedText (scan .code text) = segments.flatMap Segment.masked ∧
      lineComments (scan .code text) = segments.filterMap Segment.lineComment? := by
  obtain ⟨segments, fit, rfl⟩ := every_text_has_a_segmentation text
  refine ⟨segments, fun other => ⟨?_, ?_⟩, ?_⟩
  · rintro ⟨fit', same⟩
    exact segmentation_unique fit' fit same
  · rintro rfl
    exact ⟨fit, rfl⟩
  · rw [scan_segments fit]
    refine ⟨?_, ?_, line_comments_of_segments segments⟩
    · simp only [codeText, marksOf, List.filterMap_flatMap]
      exact congrArg (List.flatMap · segments) (funext code_of_segment)
    · simp only [maskedText, marksOf, List.filterMap_flatMap]
      exact congrArg (List.flatMap · segments) (funext masked_of_segment)

end Authorship.Source
