import Authorship.Proofs.TextLines

/-
Preparing twice. What is left of a text without its comments is scanned again into the marks that
are left of the first scan: no slash comes to stand before another one, or before a star, that it
did not stand before. Neither do blanks cut off at the ends of lines or blank lines left out change
what any other character is.
-/
namespace Authorship.Source

def codeMark? (m : Mark) : Option Mark :=
  match m.role with
  | .code | .content => some m
  | .newline _ => some ⟨m.char, .newline false⟩
  | .closer => some ⟨' ', .code⟩
  | .lineOpener | .blockOpener | .comment | .hidden => none

def Mark.shown (m : Mark) : Char := if m.role = .content then ' ' else m.char

theorem code_of_marks (marks : List Mark) :
    codeText marks = (marks.filterMap codeMark?).map (·.char) := by
  rw [codeText, List.map_filterMap]
  apply List.filterMap_congr
  intro m member
  unfold codeChar? codeMark?
  split <;> simp_all

theorem masked_of_marks (marks : List Mark) :
    maskedText marks = (marks.filterMap codeMark?).map Mark.shown := by
  rw [maskedText, List.map_filterMap]
  apply List.filterMap_congr
  intro m member
  unfold maskedChar? codeMark?
  split <;> simp_all [Mark.shown]

theorem code_mark_again {m m' : Mark} (left : codeMark? m = some m') : codeMark? m' = some m' := by
  unfold codeMark? at left
  split at left <;> cases left <;> simp_all [codeMark?]

theorem scan_chars (mode : Mode) (cs : List Char) : (scan mode cs).map (·.char) = cs := by
  fun_induction scan mode cs <;> simp_all

theorem content_in_line (mode : Mode) (cs : List Char) :
    ∀ m ∈ scan mode cs, m.role = .content → m.char ≠ '\n' := by
  fun_induction scan mode cs <;> simp_all

theorem plain_iff (c : Char) (cs : List Char) : opening (c :: cs) = .plain ↔
    c ≠ '"' ∧ c ≠ '\'' ∧ ¬ (c = '/' ∧ (cs.head? = some '/' ∨ cs.head? = some '*')) := by
  cases cs <;> unfold opening <;> split <;> simp_all

theorem code_text_cons (m : Mark) (marks : List Mark) :
    codeText (m :: marks) = (codeChar? m).toList ++ codeText marks := by
  cases kept : codeChar? m <;> simp [codeText, kept]

/-- If the first character is lost, then to the opener of a comment. -/
theorem code_begins (cs : List Char) :
    (codeText (scan .code cs)).head? = cs.head? ∨ cs.head? = some '/' := by
  cases cs with
  | nil => exact Or.inl rfl
  | cons c cs =>
    cases kind : opening (c :: cs) with
    | plain =>
      left
      rw [scan_plain kind, code_text_cons, plainMark]
      split <;> rfl
    | line =>
      obtain ⟨after, h⟩ := opened_by kind
      exact Or.inr (by rw [h]; rfl)
    | block =>
      obtain ⟨after, h⟩ := opened_by kind
      exact Or.inr (by rw [h]; rfl)
    | quote q =>
      obtain ⟨after, h⟩ := opened_by kind
      left
      cases q <;> simp_all [Opening.sign, Quote.char, scan, code_text_cons, codeChar?]

theorem plain_again {c : Char} {cs : List Char} (plain : opening (c :: cs) = .plain) :
    opening (c :: codeText (scan .code cs)) = .plain := by
  rw [plain_iff] at plain ⊢
  rcases code_begins cs with same | slash
  · rwa [same]
  · simp_all

/-- The mode in which what is left of a text is scanned, comments being gone. -/
def Mode.outside : Mode → Mode
  | .literal q => .literal q
  | .code | .lineComment | .blockComment => .code

theorem scan_again (mode : Mode) (cs : List Char) :
    scan mode.outside (codeText (scan mode cs)) = (scan mode cs).filterMap codeMark? := by
  fun_induction scan mode cs
  case case1 mode => simp [codeText, scan]
  -- Two cases hang on the next character that is left: a slash in code, a backslash in a literal.
  case case7 c cs newline line block double single ih =>
    have plain : opening (c :: cs) = .plain := by
      rw [plain_iff]
      cases cs <;> simp_all
    have again : scan .code (c :: codeText (scan .code cs)) =
        plainMark c :: (scan .code cs).filterMap codeMark? := by
      rw [scan_plain (plain_again plain)]
      exact congrArg _ ih
    rw [plainMark, if_neg newline] at again
    exact again
  case case17 q c cs newline _ escape quote ih =>
    have again : scan (.literal q) (c :: codeText (scan (.literal q) cs)) =
        ⟨c, .content⟩ :: scan (.literal q) (codeText (scan (.literal q) cs)) := by
      by_cases last : c = '\\'
      · cases cs with
        | nil => simp [scan, codeText, quote]
        | cons d cs => exact absurd rfl (escape d cs last)
      · exact scan_ordinary _ last quote newline
    exact again.trans (congrArg _ ih)
  all_goals
    simp_all [code_text_cons, codeChar?, codeMark?, Mode.outside, scan, scan_quote,
      List.filterMap_cons]

def Bare (cs : List Char) : Prop := ∀ m ∈ scan .code cs, codeMark? m = some m

theorem left_of_bare {cs : List Char} (bare : Bare cs) :
    (scan .code cs).filterMap codeMark? = scan .code cs := by
  rw [List.filterMap_congr bare, List.filterMap_some]

theorem code_of_bare {cs : List Char} (bare : Bare cs) : codeText (scan .code cs) = cs := by
  rw [code_of_marks, left_of_bare bare, scan_chars]

theorem code_is_bare (cs : List Char) : Bare (codeText (scan .code cs)) := by
  intro m member
  have left : scan .code (codeText (scan .code cs)) = (scan .code cs).filterMap codeMark? :=
    scan_again .code cs
  rw [left, List.mem_filterMap] at member
  obtain ⟨before, -, same⟩ := member
  exact code_mark_again same

theorem bare_roles {cs : List Char} (bare : Bare cs) :
    ∀ m ∈ scan .code cs, m.role = .code ∨ m.role = .content ∨ m.role = .newline false := by
  intro m member
  have same := bare m member
  obtain ⟨char, role⟩ := m
  cases role <;> simp_all [codeMark?]

theorem bare_ends {marks : List Mark} (bare : ∀ m ∈ marks, codeMark? m = some m)
    (inside : Bool) : endsInBlock inside marks = inside := by
  induction marks with
  | nil => rfl
  | cons m marks ih =>
    obtain ⟨first, rest⟩ := List.forall_mem_cons.mp bare
    have same := ih rest
    obtain ⟨char, role⟩ := m
    cases role <;> simp_all [codeMark?, endsInBlock]

theorem bare_flags {marks : List Mark} (bare : ∀ m ∈ marks, codeMark? m = some m) :
    (commentFlags false marks).count true = 0 := by
  induction marks with
  | nil => rfl
  | cons m marks ih =>
    obtain ⟨first, rest⟩ := List.forall_mem_cons.mp bare
    have none := ih rest
    obtain ⟨char, role⟩ := m
    cases role <;> simp_all [codeMark?, commentFlags]

theorem bare_line_comments {cs : List Char} (bare : Bare cs) :
    lineComments (scan .code cs) = [] := by
  have none : ∀ m ∈ scan .code cs, m.role ≠ .lineOpener := by
    intro m member opener
    have same := bare m member
    simp [codeMark?, opener] at same
  have skipped := line_comments_skip [] none
  rwa [List.append_nil] at skipped

theorem scan_bare_line {line : List Char} (rest : List Char) (bare : Bare line) :
    scan .code (line ++ '\n' :: rest) =
      scan .code line ++ ⟨'\n', .newline false⟩ :: scan .code rest :=
  scan_append_newline rest (bare_ends bare false)

theorem bare_append_iff (line rest : List Char) :
    Bare (line ++ '\n' :: rest) ↔ Bare line ∧ Bare rest := by
  constructor
  · intro bare
    obtain ⟨final, -, cut⟩ := scan_cut .code line
    have first : Bare line := by
      intro m member
      apply bare m
      rw [cut '\n' rest (by decide)]
      exact List.mem_append_left _ member
    refine ⟨first, ?_⟩
    intro m member
    apply bare m
    rw [scan_bare_line rest first]
    exact List.mem_append_right _ (List.mem_cons_of_mem _ member)
  · rintro ⟨first, second⟩ m member
    rw [scan_bare_line rest first, List.mem_append, List.mem_cons] at member
    rcases member with before | rfl | after
    · exact first m before
    · rfl
    · exact second m after

theorem bare_joined_iff (pieces : List (List Char)) :
    Bare (Text.joinWith '\n' pieces) ↔ ∀ piece ∈ pieces, Bare piece := by
  induction pieces with
  | nil => simp [Text.joinWith, Bare, scan]
  | cons piece pieces ih =>
    by_cases more : pieces = []
    · subst more
      simp [Text.joinWith]
    · rw [Text.join_cons piece more, bare_append_iff, ih, List.forall_mem_cons]

theorem blank_is_neutral {x : Char} (blank : Text.isBlank x = true) : Neutral x := by
  intro member
  simp only [List.mem_cons, List.not_mem_nil, or_false] at member
  rcases member with rfl | rfl | rfl | rfl | rfl <;> exact absurd blank (by decide)

/-- A line is cut before a blank, which nothing before it takes with it. -/
theorem scan_trimmed (line : List Char) :
    ∃ blanks, scan .code line = scan .code (Text.trimEnd line) ++ blanks := by
  obtain ⟨blanks, parts, blank⟩ := Text.trim_end_split line
  cases blanks with
  | nil => exact ⟨[], by rw [List.append_nil] at parts ⊢; rw [← parts]⟩
  | cons x blanks =>
    obtain ⟨final, -, cut⟩ := scan_cut .code (Text.trimEnd line)
    refine ⟨scan final (x :: blanks), ?_⟩
    rw [← cut x blanks (blank_is_neutral (blank x List.mem_cons_self)), ← parts]

theorem bare_trimmed {line : List Char} (bare : Bare line) : Bare (Text.trimEnd line) := by
  obtain ⟨blanks, parts⟩ := scan_trimmed line
  intro m member
  exact bare m (by rw [parts]; exact List.mem_append_left _ member)

/- The lines of code with what each of their characters is. -/

def cutEnd (line : List Mark) : List Mark :=
  line.take (Text.trimEnd (line.map (·.char))).length

def keptMarks (marks : List Mark) : List (List Mark) :=
  let lines := (marks.filterMap codeMark?).splitOnP (·.char = '\n')
  (lines.filter fun line => !Text.isBlankLine (line.map (·.char))).map cutEnd

theorem cut_scan (line : List Char) :
    cutEnd (scan .code line) = scan .code (Text.trimEnd line) := by
  obtain ⟨blanks, parts⟩ := scan_trimmed line
  have size : (scan .code (Text.trimEnd line)).length = (Text.trimEnd line).length := by
    rw [← List.length_map (·.char), scan_chars]
  rw [cutEnd, scan_chars, parts, ← size, List.take_left]

theorem split_marks {f : Mark → Char} {marks : List Mark}
    (newlines : ∀ m ∈ marks, f m = '\n' ↔ m.char = '\n') :
    Text.splitOn '\n' (marks.map f) = (marks.splitOnP (·.char = '\n')).map (·.map f) := by
  induction marks with
  | nil => rfl
  | cons m marks ih =>
    obtain ⟨first, rest⟩ := List.forall_mem_cons.mp newlines
    rw [List.splitOnP_cons_eq_if_modifyHead, List.map_cons]
    by_cases newline : m.char = '\n'
    · rw [first.mpr newline, Text.split_separator, ih rest]
      simp [newline]
    · cases pieces : marks.splitOnP (·.char = '\n') with
      | nil => exact absurd pieces (List.splitOnP_ne_nil _ _)
      | cons piece more =>
        rw [pieces, List.map_cons] at ih
        rw [Text.split_ordinary (fun same => newline (first.mp same)) (ih rest)]
        simp [newline]

theorem cut_chars (line : List Mark) :
    (cutEnd line).map (·.char) = Text.trimEnd (line.map (·.char)) := by
  have start : Text.trimEnd (line.map (·.char)) <+: line.map (·.char) :=
    List.rdropWhile_prefix Text.isBlank _
  rw [cutEnd, List.map_take, ← List.prefix_iff_eq_take.mp start]

theorem cut_shown (line : List Mark) :
    Text.trimEnd ((cutEnd line).map Mark.shown) = Text.trimEnd (line.map Mark.shown) := by
  obtain ⟨blanks, parts, blank⟩ := Text.trim_end_split (line.map (·.char))
  -- A character that looks like itself is blank, and a blanked one is blank too.
  have lost : ∀ c ∈ (line.drop (Text.trimEnd (line.map (·.char))).length).map Mark.shown,
      Text.isBlank c = true := by
    intro c member
    obtain ⟨m, dropped, rfl⟩ := List.mem_map.mp member
    unfold Mark.shown
    split
    · decide
    · apply blank
      have tail : (line.drop (Text.trimEnd (line.map (·.char))).length).map (·.char) = blanks := by
        rw [List.map_drop]
        conv => lhs; arg 2; rw [parts]
        exact List.drop_left
      rw [← tail]
      exact List.mem_map_of_mem dropped
  conv => rhs; rw [← List.take_append_drop (Text.trimEnd (line.map (·.char))).length line]
  rw [List.map_append, Text.trim_end_blanks _ lost, cutEnd]

theorem kept_lines_of_marks (mode : Mode) (cs : List Char) :
    keptLines (scan mode cs) = (keptMarks (scan mode cs)).map fun line =>
      (line.map (·.char), Text.trimEnd (line.map Mark.shown)) := by
  have newlines : ∀ m ∈ (scan mode cs).filterMap codeMark?, m.shown = '\n' ↔ m.char = '\n' := by
    intro m member
    obtain ⟨before, inside, left⟩ := List.mem_filterMap.mp member
    have inLine := content_in_line mode cs before inside
    unfold codeMark? at left
    split at left <;> cases left <;> simp_all [Mark.shown]
  unfold keptLines keptMarks
  rw [code_of_marks, masked_of_marks, split_marks (f := Mark.char) (fun _ _ => Iff.rfl),
    split_marks newlines, List.zip_map']
  simp only [List.filter_map, List.map_map, Function.comp_def, cut_chars, cut_shown]

theorem scan_pieces {pieces : List (List Char)} (some : pieces ≠ [])
    (whole : ∀ piece ∈ pieces, '\n' ∉ piece) (bare : ∀ piece ∈ pieces, Bare piece) :
    (scan .code (Text.joinWith '\n' pieces)).splitOnP (·.char = '\n') =
      pieces.map (scan .code) := by
  induction pieces with
  | nil => exact absurd rfl some
  | cons piece pieces ih =>
    obtain ⟨inLine, whole⟩ := List.forall_mem_cons.mp whole
    obtain ⟨first, bare⟩ := List.forall_mem_cons.mp bare
    have inPiece : ∀ m ∈ scan .code piece, decide (m.char = '\n') = false := by
      intro m member
      rw [← scan_chars .code piece] at inLine
      exact decide_eq_false fun newline => inLine (newline ▸ List.mem_map_of_mem member)
    by_cases more : pieces = []
    · subst more
      exact List.splitOnP_eq_singleton inPiece
    · rw [Text.join_cons piece more, scan_bare_line _ first,
        List.splitOnP_append_cons_of_forall_mem inPiece _ (by simp), ih more whole bare]
      rfl

theorem kept_marks_of_lines (cs : List Char) : keptMarks (scan .code cs) =
    (nonblankLines (codeText (scan .code cs))).map (scan .code) := by
  have bare := code_is_bare cs
  have left : (scan .code cs).filterMap codeMark? = scan .code (codeText (scan .code cs)) :=
    (scan_again .code cs).symm
  rw [keptMarks, left]
  generalize codeText (scan .code cs) = code at bare
  have pieces : (scan .code code).splitOnP (·.char = '\n') =
      (Text.splitOn '\n' code).map (scan .code) := by
    rw [← Text.join_split '\n' code, bare_joined_iff] at bare
    have some : Text.splitOn '\n' code ≠ [] := Text.split_eq '\n' code ▸ List.splitOn_ne_nil _ _
    have split := scan_pieces some (Text.pieces_whole '\n' code) bare
    rwa [Text.join_split] at split
  rw [pieces, nonblankLines]
  simp only [List.filter_map, List.map_map, Function.comp_def, scan_chars, cut_scan]

theorem nonblank_joined {pieces : List (List Char)} (whole : ∀ piece ∈ pieces, '\n' ∉ piece)
    (kept : ∀ piece ∈ pieces, Text.Kept piece) :
    nonblankLines (Text.joinWith '\n' pieces) = pieces := by
  by_cases none : pieces = []
  · subst none
    decide
  · have visible : pieces.filter (!Text.isBlankLine ·) = pieces := by
      apply List.filter_eq_self.mpr
      intro piece member
      simp [(kept piece member).visible]
    rw [nonblankLines, Text.split_joined none whole, visible]
    calc pieces.map Text.trimEnd = pieces.map id := by
          apply List.map_congr_left
          intro piece member
          exact (kept piece member).trimmed
      _ = pieces := List.map_id pieces

theorem nonblank_lines_kept (code : List Char) :
    ∀ line ∈ nonblankLines code, '\n' ∉ line ∧ Text.Kept line ∧ (Bare code → Bare line) := by
  intro line member
  obtain ⟨piece, split, rfl⟩ := List.mem_map.mp member
  obtain ⟨inside, visible⟩ := List.mem_filter.mp split
  refine ⟨?_, Text.trimmed_is_kept (by simpa using visible), ?_⟩
  · intro newline
    have start : Text.trimEnd piece <+: piece := List.rdropWhile_prefix Text.isBlank _
    exact Text.pieces_whole '\n' code piece inside (start.mem newline)
  · intro bare
    rw [← Text.join_split '\n' code, bare_joined_iff] at bare
    exact bare_trimmed (bare piece inside)

def marksIn (text : String) : List Mark :=
  scan .code (Text.withoutCarriageReturns text.toList)

def codeAlone (text filename : String) : String :=
  String.ofList (Text.joinWith '\n' (prepare text filename).codeLines)

theorem code_lines_kept (text filename : String) : ∀ line ∈ (prepare text filename).codeLines,
    '\n' ∉ line ∧ Text.Kept line ∧ Bare line := by
  intro line member
  rw [code_lines_eq] at member
  obtain ⟨whole, kept, bare⟩ := nonblank_lines_kept _ line member
  exact ⟨whole, kept, bare (code_is_bare _)⟩

theorem code_alone_marks (text filename : String) :
    marksIn (codeAlone text filename) = scan .code (codeAlone text filename).toList ∧
      Bare (codeAlone text filename).toList := by
  have lines := code_lines_kept text filename
  rw [marksIn, codeAlone, String.toList_ofList]
  constructor
  · rw [Text.returns_joined (fun line member => (lines line member).1)
      (fun line member => Text.kept_ends (lines line member).2.1)]
  · exact (bare_joined_iff _).mpr fun line member => (lines line member).2.2

theorem code_alone_lines (text filename filename' : String) :
    (prepare (codeAlone text filename) filename').codeLines =
      (prepare text filename).codeLines := by
  obtain ⟨marks, bare⟩ := code_alone_marks text filename
  have lines := code_lines_kept text filename
  have code : codeOf (codeAlone text filename).toList = (codeAlone text filename).toList := by
    have scanned : codeText (marksIn (codeAlone text filename)) = _ := congrArg codeText marks
    exact scanned.trans (code_of_bare bare)
  rw [code_lines_eq, code, codeAlone, String.toList_ofList]
  exact nonblank_joined (fun line member => (lines line member).1)
    (fun line member => (lines line member).2.1)

theorem comment_lines_of_marks (text filename : String) : (prepare text filename).commentLines =
    min ((commentFlags false (marksIn text)).count true) (Text.lines text.toList).length := rfl

theorem line_comments_of_marks (text filename : String) :
    (prepare text filename).lineComments = lineComments (marksIn text) := rfl

theorem blank_lines_of_text (text filename : String) : (prepare text filename).blankLines =
    (Text.lines text.toList).countP Text.isBlankLine := rfl

theorem total_lines_of_text (text filename : String) :
    (prepare text filename).totalLines = (Text.lines text.toList).length := rfl

theorem functions_of_masked (text filename : String) : (prepare text filename).functions =
    Lexicon.functionDefinitions (Text.joinWith '\n' (prepare text filename).maskedLines) := by
  simp only [prepare]

theorem code_lines_of_marks (text filename : String) : (prepare text filename).codeLines =
    (keptLines (marksIn text)).map (·.1) := rfl

theorem masked_lines_kept (text filename : String) : (prepare text filename).maskedLines =
    (keptLines (marksIn text)).map (·.2) := rfl

theorem masked_lines_of_marks (text filename : String) : (prepare text filename).maskedLines =
    (keptMarks (marksIn text)).map fun line => Text.trimEnd (line.map Mark.shown) := by
  rw [masked_lines_kept, marksIn, kept_lines_of_marks, List.map_map]
  rfl

theorem kept_marks_eq (text filename : String) :
    keptMarks (marksIn text) = (prepare text filename).codeLines.map (scan .code) := by
  rw [marksIn, kept_marks_of_lines, code_lines_eq]
  rfl

/-- Preparing the lines of code again gives them back, masked alike and with the same functions,
and finds nothing else. No comment comes up, and every character on a line of code is what it was
before: code, or the content of a literal. -/
theorem preparing_again_changes_nothing (text filename filename' : String) :
    let first := prepare text filename
    let again := prepare (codeAlone text filename) filename'
    again.codeLines = first.codeLines ∧ again.maskedLines = first.maskedLines ∧
      again.functions = first.functions ∧
      again.commentLines = 0 ∧ again.lineComments = [] ∧
      again.blankLines = 0 ∧ again.totalLines = again.loc ∧
      keptMarks (marksIn (codeAlone text filename)) = keptMarks (marksIn text) ∧
      ∀ m ∈ marksIn (codeAlone text filename),
        m.role = .code ∨ m.role = .content ∨ m.role = .newline false := by
  intro first again
  obtain ⟨marks, bare⟩ := code_alone_marks text filename
  have lines := code_lines_kept text filename
  have code : again.codeLines = first.codeLines := code_alone_lines text filename filename'
  have kept : keptMarks (marksIn (codeAlone text filename)) = keptMarks (marksIn text) := by
    rw [kept_marks_eq _ filename', kept_marks_eq _ filename]
    exact congrArg (List.map (scan .code)) code
  have masked : again.maskedLines = first.maskedLines := by
    rw [masked_lines_of_marks, masked_lines_of_marks, kept]
  have physical : Text.lines (codeAlone text filename).toList = first.codeLines := by
    rw [codeAlone, String.toList_ofList]
    exact Text.lines_joined (fun line member => (lines line member).1)
      (fun line member => (lines line member).2.1)
  refine ⟨code, masked, ?_, ?_, ?_, ?_, ?_, kept, ?_⟩
  · rw [functions_of_masked, functions_of_masked, masked]
  · rw [comment_lines_of_marks, marks, bare_flags bare, Nat.zero_min]
  · rw [line_comments_of_marks, marks]
    exact bare_line_comments bare
  · rw [blank_lines_of_text, physical, List.countP_eq_zero]
    intro line member
    simp [(lines line member).2.1.visible]
  · rw [total_lines_of_text, physical, Prepared.loc, code]
  · rw [marks]
    exact bare_roles bare

end Authorship.Source
