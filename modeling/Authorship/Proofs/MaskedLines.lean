import Authorship.Proofs.LineCounts
import Authorship.Proofs.LiteralContents

/-
Masked lines beside the lines of code. Both views of a line come from the same marks, so that a
masked line is its line of code with spaces in some places. It can be the shorter one of the two
only where the line ends in a literal that is not closed, and what it lacks is then what that
literal holds.
-/
namespace Authorship.Source

variable {segments : List Segment}

/- Lines among the marks that are left once comments are gone. -/

theorem mark_lines_append {newline : Mark} (isNewline : newline.char = '\n')
    (marks rest : List Mark) :
    markLines (marks ++ newline :: rest) = markLines marks ++ markLines rest :=
  List.splitOnP_append_cons marks rest (by simp [isNewline])

theorem mark_lines_single {marks : List Mark} (inLine : ∀ m ∈ marks, m.char ≠ '\n') :
    markLines marks = [marks] :=
  List.splitOnP_eq_singleton fun m member => by simp [inLine m member]

theorem first_line (marks : List Mark) : (∀ m ∈ marks, m.char ≠ '\n') ∨
    ∃ line newline rest, marks = line ++ newline :: rest ∧ newline.char = '\n' ∧
      ∀ m ∈ line, m.char ≠ '\n' := by
  induction marks with
  | nil => exact Or.inl (by simp)
  | cons m marks ih =>
    by_cases newline : m.char = '\n'
    · exact Or.inr ⟨[], m, marks, rfl, newline, by simp⟩
    · rcases ih with inLine | ⟨line, next, rest, rfl, isNewline, inLine⟩
      · exact Or.inl (List.forall_mem_cons.mpr ⟨newline, inLine⟩)
      · exact Or.inr ⟨m :: line, next, rest, rfl, isNewline,
          List.forall_mem_cons.mpr ⟨newline, inLine⟩⟩

/-- Where a line stands: at the beginning or after a newline, and at the end or before a newline. -/
structure Placed (marks start line rest : List Mark) : Prop where
  parts : marks = start ++ (line ++ rest)
  begins : ∀ m ∈ start.getLast?, m.char = '\n'
  inLine : ∀ m ∈ line, m.char ≠ '\n'
  ends : ∀ m ∈ rest.head?, m.char = '\n'

theorem line_placed {marks line : List Mark} {before after : List (List Mark)}
    (lines : markLines marks = before ++ line :: after) :
    ∃ start rest, Placed marks start line rest ∧ markLines (start ++ line) = before ++ [line] := by
  induction before generalizing marks with
  | nil =>
    rcases first_line marks with inLine | ⟨first, newline, rest, rfl, isNewline, inLine⟩
    · rw [mark_lines_single inLine] at lines
      obtain ⟨rfl, -⟩ := List.cons.inj lines
      exact ⟨[], [], ⟨by simp, by simp, inLine, by simp⟩, mark_lines_single inLine⟩
    · rw [mark_lines_append isNewline, mark_lines_single inLine] at lines
      obtain ⟨rfl, -⟩ := List.cons.inj lines
      exact ⟨[], newline :: rest, ⟨rfl, by simp, inLine, by simp [isNewline]⟩,
        mark_lines_single inLine⟩
  | cons earlier before ih =>
    rcases first_line marks with inLine | ⟨first, newline, more, rfl, isNewline, inLine⟩
    · rw [mark_lines_single inLine] at lines
      simp at lines
    · rw [mark_lines_append isNewline, mark_lines_single inLine] at lines
      obtain ⟨rfl, later⟩ := List.cons.inj lines
      obtain ⟨start, rest, placed, found⟩ := ih later
      refine ⟨first ++ newline :: start, rest, ⟨?_, ?_, placed.inLine, placed.ends⟩, ?_⟩
      · rw [placed.parts]
        simp
      · intro m last
        rcases List.eq_nil_or_concat start with rfl | ⟨others, last', rfl⟩
        · obtain rfl : newline = m := by simpa using last
          exact isNewline
        · apply placed.begins m
          simpa [List.getLast?_append, List.getLast?_cons] using last
      · rw [List.append_assoc, List.cons_append, mark_lines_append isNewline,
          mark_lines_single inLine, found]
        rfl

/- The marks that are left of segments. -/

def codeMarks (segments : List Segment) : List Mark := (marksOf segments).filterMap codeMark?

def contentMarks (body : List Char) : List Mark := body.map (⟨·, .content⟩)

@[simp] theorem content_chars (body : List Char) : (contentMarks body).map (·.char) = body := by
  simp [contentMarks, Function.comp_def]

theorem code_marks_cons (segment : Segment) (segments : List Segment) :
    codeMarks (segment :: segments) = segment.marks.filterMap codeMark? ++ codeMarks segments :=
  List.filterMap_append

theorem marks_left_of_literal (q : Quote) (body : List Char) (closed : Bool) :
    (Segment.literal q body closed).marks.filterMap codeMark? =
      ⟨q.char, .code⟩ :: (contentMarks body ++ if closed then [⟨q.char, .code⟩] else []) := by
  have kept : (contentMarks body).filterMap codeMark? = contentMarks body := by
    induction body with
    | nil => rfl
    | cons c body ih =>
      unfold contentMarks at *
      rw [List.map_cons, List.filterMap_cons]
      simp [codeMark?, ih]
  cases closed <;> simpa [Segment.marks, codeMark?, contentMarks] using kept

theorem content_of_segment {segment : Segment} {x : Char}
    (content : ⟨x, .content⟩ ∈ segment.marks.filterMap codeMark?) :
    ∃ q body closed, segment = .literal q body closed := by
  obtain ⟨m, inside, left⟩ := List.mem_filterMap.mp content
  have role : m.role = .content := by
    unfold codeMark? at left
    split at left <;> cases left <;> rfl
  cases segment with
  | literal q body closed => exact ⟨q, body, closed, rfl⟩
  | plain c =>
    obtain rfl : m = plainMark c := List.mem_singleton.mp inside
    unfold plainMark at role
    split at role <;> cases role
  | lineComment body =>
    simp only [Segment.marks, List.mem_cons, List.mem_map] at inside
    rcases inside with rfl | rfl | ⟨c, -, rfl⟩ <;> cases role
  | blockComment body closed =>
    have hidden : ∀ c, (blockMark c).role ≠ .content := by
      intro c
      unfold blockMark
      split <;> simp
    cases closed <;> simp [Segment.marks] at inside <;> grind

theorem placed_in_parts {α : Type} {xs ys before after : List α} {x : α}
    (parts : xs ++ ys = before ++ x :: after) :
    (∃ between, xs = before ++ x :: between ∧ after = between ++ ys) ∨
      ∃ between, ys = between ++ x :: after ∧ before = xs ++ between := by
  rcases List.append_eq_append_iff.mp parts with ⟨between, same, tail⟩ | ⟨between, same, tail⟩
  · exact Or.inr ⟨between, tail, same⟩
  · cases between with
    | nil => exact Or.inr ⟨[], by simpa using tail.symm, by simpa using same.symm⟩
    | cons y between =>
      obtain ⟨rfl, rest⟩ := List.cons.inj tail
      exact Or.inl ⟨between, same, rest⟩

theorem content_in_literal {q : Quote} {body : List Char} {closed : Bool} {x : Char}
    {before after : List Mark}
    (placed : (Segment.literal q body closed).marks.filterMap codeMark? =
      before ++ ⟨x, .content⟩ :: after) :
    ∃ held rest, body = held ++ x :: rest ∧ before = ⟨q.char, .code⟩ :: contentMarks held ∧
      after = contentMarks rest ++ if closed then [⟨q.char, .code⟩] else [] := by
  rw [marks_left_of_literal] at placed
  cases before with
  | nil => simp at placed
  | cons first before =>
    obtain ⟨rfl, inside⟩ := List.cons.inj placed
    rcases placed_in_parts inside with ⟨rest, whole, rfl⟩ | ⟨rest, closing, -⟩
    · unfold contentMarks at whole
      obtain ⟨held, more, rfl, rfl, tail⟩ := List.map_eq_append_iff.mp whole
      obtain ⟨c, rest', rfl, same, rfl⟩ := List.map_eq_cons_iff.mp tail
      obtain rfl : c = x := congrArg Mark.char same
      exact ⟨held, rest', rfl, rfl, rfl⟩
    · have member : (⟨x, .content⟩ : Mark) ∈ if closed then [⟨q.char, .code⟩] else [] := by
        rw [closing]
        simp
      cases closed <;> simp at member

theorem content_placed {x : Char} {before after : List Mark}
    (placed : codeMarks segments = before ++ ⟨x, .content⟩ :: after) :
    ∃ earlier q held rest closed later,
      segments = earlier ++ .literal q (held ++ x :: rest) closed :: later ∧
      before = codeMarks earlier ++ ⟨q.char, .code⟩ :: contentMarks held ∧
      after = contentMarks rest ++
        ((if closed then [⟨q.char, .code⟩] else []) ++ codeMarks later) := by
  induction segments generalizing before with
  | nil =>
    have none : codeMarks [] = [] := rfl
    simp [none] at placed
  | cons segment segments ih =>
    rw [code_marks_cons] at placed
    rcases placed_in_parts placed with ⟨between, inside, rfl⟩ | ⟨between, inside, rfl⟩
    · have content : ⟨x, .content⟩ ∈ segment.marks.filterMap codeMark? := by
        rw [inside]
        simp
      obtain ⟨q, body, closed, rfl⟩ := content_of_segment content
      obtain ⟨held, rest, rfl, rfl, rfl⟩ := content_in_literal inside
      exact ⟨[], q, held, rest, closed, segments, rfl, rfl, by rw [List.append_assoc]⟩
    · obtain ⟨earlier, q, held, rest, closed, later, rfl, rfl, rfl⟩ := ih inside
      refine ⟨segment :: earlier, q, held, rest, closed, later, rfl, ?_, rfl⟩
      rw [code_marks_cons, List.append_assoc]

/- A literal that is not closed. -/

theorem chars_of_code_marks (segments : List Segment) :
    (codeMarks segments).map (·.char) = segments.flatMap Segment.code := by
  unfold codeMarks
  rw [← code_of_marks, codeText, marksOf, List.filterMap_flatMap]
  exact congrArg (List.flatMap · segments) (funext code_of_segment)

theorem line_end_in_code (ends : AtLineEnd (textOf segments)) :
    AtLineEnd (segments.flatMap Segment.code) := by
  cases segments with
  | nil => exact Or.inl rfl
  | cons segment segments =>
    rcases ends with none | ⟨after, text⟩
    · obtain ⟨c, cs, first⟩ := segment_text_cons segment
      simp [text_of_cons, first] at none
    · rw [text_of_cons] at text
      have quote (q : Quote) := (quote_is_ordinary q).2.1
      cases segment <;> simp_all [Segment.text, Segment.code, AtLineEnd]

theorem not_closed {q : Quote} {body blanks tail rest : List Char}
    (inLine : '\n' ∉ body) (blank : ∀ c ∈ blanks, Text.isBlank c = true) (ends : AtLineEnd rest)
    (same : blanks ++ rest = body ++ q.char :: tail) : False := by
  have visible : Text.isBlank q.char = false := Text.quote_is_visible (quote_is_quote q)
  rcases placed_in_parts same with ⟨between, whole, -⟩ | ⟨between, after, whole⟩
  · have member := blank q.char (by simp [whole])
    simp [visible] at member
  · rcases ends with rfl | ⟨more, rfl⟩
    · simp at after
    · cases between with
      | nil =>
        obtain ⟨newline, -⟩ := List.cons.inj after
        exact (quote_is_ordinary q).2.1 newline.symm
      | cons c between =>
        obtain ⟨rfl, -⟩ := List.cons.inj after
        exact inLine (by simp [whole])

theorem at_line_end {rest : List Mark} (ends : ∀ m ∈ rest.head?, m.char = '\n') :
    AtLineEnd (rest.map (·.char)) := by
  cases rest with
  | nil => exact Or.inl rfl
  | cons m rest =>
    have newline : m.char = '\n' := ends m rfl
    exact Or.inr ⟨rest.map (·.char), by rw [List.map_cons, newline]⟩

theorem run_on_line {start line before run : List Mark}
    (begins : ∀ m ∈ start.getLast?, m.char = '\n') (inLine : ∀ m ∈ run, m.char ≠ '\n')
    (parts : start ++ line = before ++ run) :
    ∃ between, before = start ++ between ∧ line = between ++ run := by
  rcases List.append_eq_append_iff.mp parts with ⟨between, same, tail⟩ | ⟨between, same, tail⟩
  · exact ⟨between, same, tail⟩
  · rcases List.eq_nil_or_concat between with rfl | ⟨others, last, rfl⟩
    · exact ⟨[], by simpa using same.symm, by simpa using tail.symm⟩
    · have newline : last.char = '\n' := begins last (by simp [same])
      exact absurd newline (inLine last (by simp [tail]))

/-- A line that ends in the content of a literal, but for blanks, ends in one that is not closed. -/
theorem line_in_literal (fit : Segmentation segments) {start line blanks rest : List Mark}
    {x : Char} (placed : Placed (codeMarks segments) start (line ++ ⟨x, .content⟩ :: blanks) rest)
    (blank : ∀ m ∈ blanks, Text.isBlank m.char = true) :
    ∃ earlier q held later before,
      segments = earlier ++ .literal q (held ++ x :: blanks.map (·.char)) false :: later ∧
      codeMarks earlier = start ++ before ∧
      line = before ++ ⟨q.char, .code⟩ :: contentMarks held := by
  have parts : codeMarks segments = (start ++ line) ++ ⟨x, .content⟩ :: (blanks ++ rest) := by
    rw [placed.parts]
    simp
  obtain ⟨earlier, q, held, more, closed, later, rfl, before, after⟩ := content_placed parts
  have fits := fits_of_member fit
  have inLine : '\n' ∉ held ++ x :: more := literal_in_one_line fits
  have inRun : ∀ m ∈ ⟨q.char, .code⟩ :: contentMarks held, m.char ≠ '\n' := by
    intro m member
    rcases List.mem_cons.mp member with rfl | inside
    · exact (quote_is_ordinary q).2.1
    · obtain ⟨c, within, rfl⟩ := List.mem_map.mp inside
      rintro rfl
      exact inLine (List.mem_append_left _ within)
  obtain ⟨between, begun, whole⟩ := run_on_line placed.begins inRun before
  have inMore : '\n' ∉ more := fun member => inLine (by simp [member])
  have ends := at_line_end placed.ends
  have chars : blanks.map (·.char) ++ rest.map (·.char) =
      more ++ ((if closed then [q.char] else []) ++ later.flatMap Segment.code) := by
    have same := congrArg (List.map (·.char)) after
    rw [List.map_append, List.map_append, List.map_append, chars_of_code_marks] at same
    rw [same, content_chars]
    cases closed <;> rfl
  cases closed with
  | true => exact (not_closed inMore (List.forall_mem_map.mpr blank) ends chars).elim
  | false =>
    have inBlanks : '\n' ∉ blanks.map (·.char) := by
      intro newline
      obtain ⟨m, inside, same⟩ := List.mem_map.mp newline
      exact placed.inLine m (by simp [inside]) same
    obtain ⟨same, -⟩ := line_end_unique inBlanks inMore ends (line_end_in_code fits.2) chars
    exact ⟨earlier, q, held, later, between, by rw [same], begun, whole⟩

/- The lines with something on them, and both views of each. -/

def visibleLines (marks : List Mark) : List (List Mark) := (markLines marks).filter onLine

def codeView (line : List Mark) : List Char := Text.trimEnd (line.map (·.char))

def maskedView (line : List Mark) : List Char := Text.trimEnd (line.map Mark.shown)

theorem nonblank_of_marks (marks : List Mark) :
    nonblankLines (marks.map (·.char)) = (visibleLines marks).map codeView := by
  rw [nonblankLines, split_marks (fun _ _ => Iff.rfl), List.filter_map, List.map_map]
  rfl

theorem lines_of_segments {text : String} (fit : Segmentation segments)
    (whole : Text.withoutCarriageReturns text.toList = textOf segments) (filename : String) :
    (prepare text filename).codeLines = (visibleLines (codeMarks segments)).map codeView ∧
      (prepare text filename).maskedLines = (visibleLines (codeMarks segments)).map maskedView := by
  have kept : keptMarks (marksIn text) = (visibleLines (codeMarks segments)).map cutEnd := by
    rw [marks_of_text fit whole]
    rfl
  constructor
  · rw [code_lines_eq, codeOf, whole, code_of_segments fit, ← chars_of_code_marks]
    exact nonblank_of_marks _
  · rw [masked_lines_of_marks, kept, List.map_map]
    exact List.map_congr_left fun line _ => cut_shown line

theorem visible_line_placed {marks line : List Mark} {i : Nat}
    (found : (visibleLines marks)[i]? = some line) :
    ∃ start rest, Placed marks start line rest ∧ onLine line = true ∧
      visibleLines (start ++ line) = (visibleLines marks).take (i + 1) := by
  obtain ⟨inside, same⟩ := List.getElem?_eq_some_iff.mp found
  have cut : visibleLines marks =
      (visibleLines marks).take i ++ line :: (visibleLines marks).drop (i + 1) := by
    rw [← same, List.getElem_cons_drop, List.take_append_drop]
  obtain ⟨before, more, lines, earlier, later⟩ := List.filter_eq_append_iff.mp cut
  obtain ⟨blank, after, rfl, isBlank, something, -⟩ := List.filter_eq_cons_iff.mp later
  have none : blank.filter onLine = [] := List.filter_eq_nil_iff.mpr isBlank
  rw [← List.append_assoc] at lines
  obtain ⟨start, rest, placed, whole⟩ := line_placed lines
  refine ⟨start, rest, placed, something, ?_⟩
  rw [visibleLines, whole, List.filter_append, List.filter_append, earlier, none, List.append_nil,
    List.filter_cons_of_pos something, List.filter_nil, List.take_add_one, found]
  rfl

theorem last_visible {line : List Mark} (something : onLine line = true) :
    ∃ before last blanks, line = before ++ last :: blanks ∧ Text.isBlank last.char = false ∧
      ∀ m ∈ blanks, Text.isBlank m.char = true := by
  induction line using List.reverseRecOn with
  | nil => exact absurd something (by decide)
  | append_singleton line m ih =>
    cases blank : Text.isBlank m.char with
    | false => exact ⟨line, m, [], rfl, blank, by simp⟩
    | true =>
      obtain ⟨before, last, blanks, rfl, visible, allBlank⟩ :=
        ih (by simpa [onLine, Text.isBlankLine, blank] using something)
      refine ⟨before, last, blanks ++ [m], by simp, visible, ?_⟩
      rw [List.forall_mem_append, List.forall_mem_singleton]
      exact ⟨allBlank, blank⟩

theorem trim_end_at {c : Char} {blanks : List Char} (start : List Char)
    (visible : Text.isBlank c = false) (blank : ∀ d ∈ blanks, Text.isBlank d = true) :
    Text.trimEnd (start ++ c :: blanks) = start ++ [c] := by
  have cut := Text.trim_end_blanks (start ++ [c]) blank
  rw [List.append_assoc, List.singleton_append] at cut
  rw [cut]
  exact List.rdropWhile_concat_neg _ _ _ (by simp [visible])

theorem view_at {view : Mark → Char} {mark : Mark} {tail : List Mark} (before : List Mark)
    (visible : Text.isBlank (view mark) = false)
    (blank : ∀ m ∈ tail, Text.isBlank (view m) = true) :
    Text.trimEnd ((before ++ mark :: tail).map view) = (before ++ [mark]).map view := by
  rw [List.map_append, List.map_cons, trim_end_at _ visible (List.forall_mem_map.mpr blank),
    List.map_append, List.map_singleton]

theorem shown_blank {m : Mark} (blank : Text.isBlank m.char = true) :
    Text.isBlank m.shown = true := by
  unfold Mark.shown
  split
  · decide
  · exact blank

theorem content_hidden (body : List Char) :
    ∀ m ∈ contentMarks body, Text.isBlank m.shown = true := by
  intro m member
  obtain ⟨c, -, rfl⟩ := List.mem_map.mp member
  rfl

theorem shown_or_space {line : List Mark} {k : Nat} {c : Char}
    (shown : (line.map Mark.shown)[k]? = some c) :
    c = ' ' ∨ (line.map (·.char))[k]? = some c := by
  rw [List.getElem?_map] at shown ⊢
  obtain ⟨m, found, rfl⟩ := Option.map_eq_some_iff.mp shown
  unfold Mark.shown
  split
  · exact Or.inl rfl
  · exact Or.inr (by rw [found]; rfl)

/-- The last of these lines of code ends in a literal that is not closed, and this is what the
literal holds, but for blanks at its end. -/
def HeldAtEnd (segments : List Segment) (lines : List (List Char)) (rest : List Char) : Prop :=
  ∃ earlier q body later, segments = earlier ++ .literal q body false :: later ∧
    nonblankLines ((earlier ++ [.literal q body false]).flatMap Segment.code) = lines ∧
    rest = Text.trimEnd body

/-- A masked line beside the last of the lines of code up to it. It has the characters of that line
or spaces, and what it lacks at the end is held by a literal. -/
structure Masks (segments : List Segment) (lines : List (List Char)) (code masked : List Char) :
    Prop where
  visible : Text.isBlankLine masked = false
  shorter : masked.length ≤ code.length
  alike : ∀ (k : Nat) (c : Char), masked[k]? = some c → c = ' ' ∨ code[k]? = some c
  lacking : masked.length < code.length → HeldAtEnd segments lines (code.drop masked.length)

/-- The masked line ends with the last mark that is shown, where the code may go on. -/
theorem masks_at {before tail : List Mark} {mark : Mark} {lines : List (List Char)}
    (more : List Char) (visible : Text.isBlank mark.shown = false)
    (blank : ∀ m ∈ tail, Text.isBlank m.shown = true)
    (code : codeView (before ++ mark :: tail) = (before ++ [mark]).map (·.char) ++ more)
    (lacking : more ≠ [] → HeldAtEnd segments lines more) :
    Masks segments lines (codeView (before ++ mark :: tail))
      (maskedView (before ++ mark :: tail)) := by
  have masked : maskedView (before ++ mark :: tail) = (before ++ [mark]).map Mark.shown :=
    view_at before visible blank
  have size : ((before ++ [mark]).map Mark.shown).length =
      ((before ++ [mark]).map (·.char)).length := by
    rw [List.length_map, List.length_map]
  rw [masked, code]
  constructor
  · simp [Text.isBlankLine, visible]
  · rw [size, List.length_append]
    exact Nat.le_add_right _ _
  · intro k c shown
    obtain ⟨inside, -⟩ := List.getElem?_eq_some_iff.mp shown
    rw [List.getElem?_append_left (size ▸ inside)]
    exact shown_or_space shown
  · intro longer
    rw [size, List.drop_left]
    apply lacking
    rintro rfl
    rw [size, List.append_nil] at longer
    exact Nat.lt_irrefl _ longer

theorem masks_of_line (fit : Segmentation segments) {start line rest : List Mark}
    (placed : Placed (codeMarks segments) start line rest) (something : onLine line = true) :
    Masks segments ((visibleLines (start ++ line)).map codeView) (codeView line)
      (maskedView line) := by
  obtain ⟨before, last, blanks, rfl, visible, blank⟩ := last_visible something
  have code : codeView (before ++ last :: blanks) = (before ++ [last]).map (·.char) :=
    view_at before visible blank
  by_cases content : last.role = .content
  · obtain ⟨x, role⟩ := last
    obtain rfl : role = .content := content
    obtain ⟨earlier, q, held, later, between, parts, begun, rfl⟩ := line_in_literal fit placed blank
    have body : Text.trimEnd (held ++ x :: blanks.map (·.char)) = held ++ [x] :=
      trim_end_at held visible (List.forall_mem_map.mpr blank)
    rw [List.append_assoc, List.cons_append] at code ⊢
    refine masks_at (held ++ [x]) ?_ ?_ ?_ ?_
    · exact Text.quote_is_visible (quote_is_quote q)
    · rw [List.forall_mem_append, List.forall_mem_cons]
      exact ⟨content_hidden held, rfl, fun m member => shown_blank (blank m member)⟩
    · rw [code]
      simp
    · intro _
      refine ⟨earlier, q, _, later, parts, ?_, body.symm⟩
      rw [← nonblank_of_marks, List.flatMap_append, ← chars_of_code_marks, begun]
      simp [Segment.code, Segment.text]
  · have same : last.shown = last.char := if_neg content
    refine masks_at [] ?_ ?_ ?_ ?_
    · rwa [same]
    · exact fun m member => shown_blank (blank m member)
    · rw [code, List.append_nil]
    · exact fun some => absurd rfl some

/-- There are as many masked lines as lines of code, and each of them is its line of code with
spaces in some places. No masked line is blank. Where one is shorter than its line of code, the rest
of that line is what one literal holds, but for blanks that end it, and this literal is not closed.
-/
theorem masked_lines_beside_code (text filename : String) :
    let s := prepare text filename
    s.codeLines.length = s.maskedLines.length ∧
      (∀ masked ∈ s.maskedLines, Text.isBlankLine masked = false) ∧
      ∃ segments, Segmentation segments ∧
        Text.withoutCarriageReturns text.toList = textOf segments ∧
        ∀ (i : Nat) (code masked : List Char),
          s.codeLines[i]? = some code → s.maskedLines[i]? = some masked →
            Masks segments (s.codeLines.take (i + 1)) code masked := by
  intro s
  obtain ⟨segments, fit, whole⟩ :=
    every_text_has_a_segmentation (Text.withoutCarriageReturns text.toList)
  obtain ⟨codeLines, maskedLines⟩ := lines_of_segments fit whole.symm filename
  have masks (i : Nat) (code masked : List Char) (isCode : s.codeLines[i]? = some code)
      (isMasked : s.maskedLines[i]? = some masked) :
      Masks segments (s.codeLines.take (i + 1)) code masked := by
    rw [codeLines, List.getElem?_map] at isCode
    rw [maskedLines, List.getElem?_map] at isMasked
    obtain ⟨line, found, rfl⟩ := Option.map_eq_some_iff.mp isCode
    obtain rfl : maskedView line = masked := by simpa [found] using isMasked
    obtain ⟨start, rest, placed, something, cut⟩ := visible_line_placed found
    rw [codeLines, ← List.map_take, ← cut]
    exact masks_of_line fit placed something
  have sizes : s.codeLines.length = s.maskedLines.length := by
    rw [codeLines, maskedLines, List.length_map, List.length_map]
  refine ⟨sizes, ?_, segments, fit, whole.symm, masks⟩
  intro masked member
  obtain ⟨i, inside, found⟩ := List.getElem_of_mem member
  have isMasked : s.maskedLines[i]? = some masked := List.getElem?_eq_some_iff.mpr ⟨inside, found⟩
  have isCode : s.codeLines[i]? = some _ := List.getElem?_eq_getElem (sizes ▸ inside)
  exact (masks i _ masked isCode isMasked).visible

example : (prepare "s = \"a b \nt" "a.c").codeLines = ["s = \"a b".toList, "t".toList] ∧
    (prepare "s = \"a b \nt" "a.c").maskedLines = ["s = \"".toList, "t".toList] := by
  decide +kernel

end Authorship.Source
