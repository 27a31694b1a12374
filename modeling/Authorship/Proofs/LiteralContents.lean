import Authorship.Proofs.ExtractedVector
import Authorship.Proofs.LineBeginnings
import Authorship.Proofs.ReplacedSegments

/-
What a literal says. Another character in its place, one that neither ends the literal nor escapes
anything, leaves the masked lines as they were, and every line of code as it was up to its first
quote. Measurements of names and of complexity do not depend on it, and of those of structure only
the number of string literals does.
-/
namespace Authorship

namespace Text

theorem visible_with_quote {q : Char} (quote : isQuote q = true) (start tail : List Char) :
    isBlankLine (start ++ q :: tail) = false := by
  simp [isBlankLine, quote_is_visible quote]

theorem before_quote_trimmed {q : Char} (quote : isQuote q = true) (start tail : List Char) :
    beforeQuote (trimEnd (start ++ q :: tail)) = beforeQuote (start ++ q :: tail) := by
  obtain ⟨blanks, parts, blank⟩ := trim_end_split (start ++ q :: tail)
  have member : q ∈ trimEnd (start ++ q :: tail) := by
    have whole : q ∈ trimEnd (start ++ q :: tail) ++ blanks := by simp [← parts]
    refine (List.mem_append.mp whole).resolve_right ?_
    intro inBlanks
    exact absurd (blank q inBlanks) (by simp [quote_is_visible quote])
  obtain ⟨u, w, trimmed⟩ := List.append_of_mem member
  calc beforeQuote (trimEnd (start ++ q :: tail)) = beforeQuote (u ++ q :: w) := by rw [trimmed]
    _ = beforeQuote (u ++ q :: (w ++ blanks)) := before_quote_cut quote _ _ _
    _ = beforeQuote (trimEnd (start ++ q :: tail) ++ blanks) := by rw [trimmed]; simp
    _ = beforeQuote (start ++ q :: tail) := by rw [← parts]

end Text

namespace Source

/-- The character stands between the quotes of a literal, or before the end of its line if the
literal is not closed. It is part of no escape: what comes before it takes nothing with it, and it
is no backslash, unless as the last of its line it has nothing to take. -/
inductive InLiteral (q : Quote) (before : List Char) (c : Char) (after : List Char) : Prop where
  | intro {earlier later : List Segment} {held rest : List Char} {closed : Bool}
      (fit : Segmentation (earlier ++ .literal q (held ++ c :: rest) closed :: later))
      (begins : Text.withoutCarriageReturns before = textOf earlier ++ q.char :: held)
      (goesOn : Text.withoutCarriageReturns (c :: after) =
        c :: (rest ++ ((if closed then [q.char] else []) ++ textOf later)))
      (apart : Content q held)
      (ordinary : c = '\\' → rest = [])
      (newline : c ≠ '\n')

variable {q : Quote} {held rest tail : List Char} {c d : Char}

theorem quote_is_quote (q : Quote) : Text.isQuote q.char = true := by
  cases q <;> decide

/- Contents with a character in another one's place. -/

theorem plain_content (q : Quote) (body : List Char)
    (ordinary : ∀ c ∈ body, c ≠ '\\' ∧ c ≠ q.char ∧ c ≠ '\n') : Content q body := by
  induction body with
  | nil => exact Content.nil
  | cons c body ih =>
    obtain ⟨⟨escape, quote, newline⟩, others⟩ := List.forall_mem_cons.mp ordinary
    exact Content.ordinary escape quote newline (ih others)

theorem content_of_ordinary {body : List Char} (escape : c ≠ '\\')
    (content : Content q (c :: body)) : Content q body := by
  cases content with
  | ordinary _ _ _ more => exact more
  | escaped => exact absurd rfl escape

theorem content_of_escaped {body : List Char} (content : Content q ('\\' :: c :: body)) :
    Content q body := by
  cases content with
  | ordinary escape => exact absurd rfl escape
  | escaped _ more => exact more

theorem content_append_iff (apart : Content q held) :
    Content q (held ++ tail) ↔ Content q tail := by
  induction apart with
  | nil => rfl
  | ordinary escape quote newline more ih =>
    constructor
    · intro whole
      exact ih.mp (content_of_ordinary escape whole)
    · intro content
      exact Content.ordinary escape quote newline (ih.mpr content)
  | escaped newline more ih =>
    constructor
    · intro whole
      exact ih.mp (content_of_escaped whole)
    · intro content
      exact Content.escaped newline (ih.mpr content)

variable (apart : Content q held) (ordinary : c = '\\' → rest = []) (escape : d ≠ '\\')
  (quote : d ≠ q.char) (newline : d ≠ '\n')
include apart ordinary escape quote newline

theorem content_replaced (content : Content q (held ++ c :: rest)) :
    Content q (held ++ d :: rest) := by
  rw [content_append_iff apart] at content ⊢
  apply Content.ordinary escape quote newline
  cases content with
  | ordinary _ _ _ more => exact more
  | escaped => exact absurd (ordinary rfl) (by simp)

theorem cut_off_replaced (cut : CutOff q (held ++ c :: rest)) : CutOff q (held ++ d :: rest) := by
  rcases cut with content | ⟨start, whole, content⟩
  · left
    exact content_replaced apart ordinary escape quote newline content
  -- The backslash that is cut off is the character itself, or it comes after it and stays.
  · rcases List.eq_nil_or_concat rest with rfl | ⟨more, last, rfl⟩
    · left
      rw [content_append_iff apart]
      exact Content.ordinary escape quote newline Content.nil
    · right
      rw [List.concat_eq_append, ← List.cons_append, ← List.append_assoc] at whole
      obtain ⟨rfl, same⟩ := List.append_inj' whole rfl
      obtain rfl := List.singleton_inj.mp same
      refine ⟨held ++ d :: more, by simp, ?_⟩
      exact content_replaced apart (fun last => absurd (ordinary last) (by simp)) escape quote
        newline content

theorem literal_replaced {closed : Bool} {following : List Char}
    (fits : (Segment.literal q (held ++ c :: rest) closed).FitsBefore following) :
    (Segment.literal q (held ++ d :: rest) closed).FitsBefore following := by
  cases closed with
  | true => exact content_replaced apart ordinary escape quote newline fits
  | false => exact ⟨cut_off_replaced apart ordinary escape quote newline fits.1, fits.2⟩

omit apart ordinary escape quote newline

theorem signals_of_literal (q : Quote) (body : List Char) (closed : Bool) :
    signals (Segment.literal q body closed).marks = [] := by
  cases closed <;> simp [signals, Segment.marks, Role.signals]

theorem lines_around_literal (apart : Content q held) (rest : List Char) (closed : Bool)
    (earlier later : List Segment) : ∃ pieces start tail more, ∀ x, x ≠ '\n' →
      Text.splitOn '\n'
          ((earlier ++ .literal q (held ++ x :: rest) closed :: later).flatMap Segment.code) =
        pieces ++ (start ++ q.char :: (held ++ x :: tail)) :: more := by
  obtain ⟨pieces, start, tail, more, split⟩ := Text.split_around '\n'
    (earlier.flatMap Segment.code)
    (rest ++ ((if closed then [q.char] else []) ++ later.flatMap Segment.code))
  refine ⟨pieces, start, tail, more, ?_⟩
  intro x newline
  have inLine : '\n' ∉ q.char :: (held ++ [x]) := by
    simp [Ne.symm (quote_is_ordinary q).2.1, content_in_one_line apart, Ne.symm newline]
  have parts := split (q.char :: (held ++ [x])) inLine
  simpa [Segment.code, Segment.text] using parts

theorem same_beginnings {ls ls' pieces more : List (List Char)} {start tail tail' : List Char}
    {quote : Char} (isQuote : Text.isQuote quote = true)
    (split : ls = pieces ++ (start ++ quote :: tail) :: more)
    (split' : ls' = pieces ++ (start ++ quote :: tail') :: more) :
    (((ls.filter (!Text.isBlankLine ·)).map Text.trimEnd).map Text.beforeQuote =
      ((ls'.filter (!Text.isBlankLine ·)).map Text.trimEnd).map Text.beforeQuote) ∧
    ls.map (!Text.isBlankLine ·) = ls'.map (!Text.isBlankLine ·) := by
  subst split split'
  constructor
  · simp only [List.filter_append, List.filter_cons, Text.visible_with_quote isQuote,
      List.map_append, Bool.not_false, if_true, List.map_cons, Text.before_quote_trimmed isQuote,
      Text.before_quote_cut isQuote start tail tail']
  · simp only [List.map_append, List.map_cons, Text.visible_with_quote isQuote]

structure SameOutsideLiterals (s s' : Prepared) : Prop extends SameMasked s s' where
  beginnings : s.codeLines.map Text.beforeQuote = s'.codeLines.map Text.beforeQuote

theorem same_outside_literal {text text' : String} {earlier later : List Segment} {closed : Bool}
    (r : Replacement text text' earlier (.literal q (held ++ c :: rest) closed)
      (.literal q (held ++ d :: rest) closed) later)
    (apart : Content q held) (inLine : c ≠ '\n') (inLine' : d ≠ '\n') (filename : String) :
    SameOutsideLiterals (prepare text filename) (prepare text' filename) := by
  obtain ⟨pieces, start, tail, more, split⟩ := lines_around_literal apart rest closed earlier later
  have code : Text.splitOn '\n' (codeText (marksIn text)) =
      pieces ++ (start ++ q.char :: (held ++ c :: tail)) :: more := by
    rw [marksIn, r.whole, code_of_segments r.fit, split c inLine]
  have code' : Text.splitOn '\n' (codeText (marksIn text')) =
      pieces ++ (start ++ q.char :: (held ++ d :: tail)) :: more := by
    rw [marksIn, r.whole', code_of_segments r.fit', split d inLine']
  obtain ⟨beginnings, visible⟩ := same_beginnings (quote_is_quote q) code code'
  constructor
  · apply same_masked r _ visible
    · rw [signals_of_literal, signals_of_literal]
    · simp [Segment.masked]
  · rw [code_lines_eq, code_lines_eq]
    exact beginnings

theorem literal_contents_replaced {before after : List Char} (inside : InLiteral q before c after)
    (escape : d ≠ '\\') (quote : d ≠ q.char) (newline : d ≠ '\n') (bare : d ≠ '\r')
    (filename : String) :
    SameOutsideLiterals (prepare (String.ofList (before ++ c :: after)) filename)
      (prepare (String.ofList (before ++ d :: after)) filename) := by
  obtain ⟨fit, begins, goesOn, apart, ordinary, inLine⟩ := inside
  rename_i earlier later held rest closed
  have goesOn' : Text.withoutCarriageReturns (d :: after) =
      d :: (rest ++ ((if closed then [q.char] else []) ++ textOf later)) := by
    rw [Text.returns_cons after bare, Text.returns_kept goesOn]
  have form (x : Char) : (Segment.literal q (held ++ x :: rest) closed).text =
      q.char :: held ++ (x :: rest ++ if closed then [q.char] else []) := by
    simp [Segment.text]
  rw [← List.append_assoc, ← List.cons_append, ← List.cons_append] at goesOn goesOn'
  have replaced := character_replaced fit
    (literal_replaced apart ordinary escape quote newline) inLine newline begins goesOn goesOn'
    (form c) (form d)
  exact same_outside_literal replaced apart inLine newline filename

end Source

open Analysis Feature

namespace Analysis

def literalCounts : List String := ["ast.string_literals", "ast.string_literals_per_loc"]

/-- The features of structure, of names and of complexity that are not about string literals. -/
def IsOfCode (name : String) : Prop :=
  namespaceOf name ∈ ["ast", "naming", "complexity"] ∧ name ∉ literalCounts

instance : DecidablePred IsOfCode := fun _ => inferInstanceAs (Decidable (_ ∧ _))

variable {α : Type}

theorem measurements_apart [Scalar α] (m : Metrics α) (literals : Nat) :
    (inGroup "ast" { m with stringLiterals := literals }.measurements).filter (IsOfCode ·.1) =
      (inGroup "ast" m.measurements).filter (IsOfCode ·.1) := by
  have parts (m : Metrics α) : inGroup "ast" m.measurements =
      inGroup "ast" (m.measurements.take 21) ++
        ("ast.string_literals", Scalar.count m.stringLiterals) ::
          (inGroup "ast" ((m.measurements.drop 22).take 13) ++
            ("ast.string_literals_per_loc", Scalar.perCount m.stringLiterals m.loc) ::
              inGroup "ast" (m.measurements.drop 36)) := rfl
  have number : ¬ IsOfCode "ast.string_literals" := fun ofCode => ofCode.2 (by decide)
  have share : ¬ IsOfCode "ast.string_literals_per_loc" := fun ofCode => ofCode.2 (by decide)
  -- Without these two, no measurement mentions the number.
  rw [parts, parts]
  simp only [List.filter_append, List.filter_cons, number, share, decide_false, Bool.false_eq_true,
    if_false]
  rfl

theorem other_group {group : String} (undotted : '.' ∉ group.toList)
    (other : group ∉ ["ast", "naming", "complexity"]) (name : String) :
    ¬ IsOfCode (joinName group name) := by
  rw [IsOfCode, namespace_of_joined undotted]
  exact fun ofCode => other ofCode.1

theorem same_outside_values [Analytic α] (c : Settings α) {s s' : Source.Prepared}
    (same : Source.SameOutsideLiterals s s') {name : String} (ofCode : IsOfCode name) :
    (extractPrepared c s).get? name = (extractPrepared c s').get? name := by
  obtain ⟨⟨masked, functions, comments⟩, beginnings⟩ := same
  have text : s.masked = s'.masked := congrArg (Text.joinWith '\n') masked
  have loc : s.loc = s'.loc := length_alike beginnings
  refine agreeing_values c IsOfCode (other_group (by decide) (by decide)) ?_ ofCode
  intro family
  cases family with
  | structural =>
    right
    rw [Family.measure, Family.measure, structureMeasurements, structureMeasurements,
      structure_alike beginnings masked functions]
    exact (measurements_apart _ _).symm
  | naming =>
    right
    simp only [Family.measure, namingMeasurements, masked, text]
  | complexity =>
    right
    simp only [Family.measure, complexityMeasurements, masked, loc, comments]
  | redundancy => exact Or.inl (other_group (by decide) (by decide))
  | aiPattern => exact Or.inl (other_group (by decide) (by decide))
  | humanStyle => exact Or.inl (other_group (by decide) (by decide))

end Analysis

/-- Another character in a literal, one that neither ends it nor escapes anything, changes nothing
outside of literals, and no measurement of structure, names or complexity but the number of string
literals and their share, whatever is left out and however it is weighted. -/
theorem literal_contents_unread {q : Source.Quote} {before after : List Char} {c d : Char}
    (inside : Source.InLiteral q before c after) (escape : d ≠ '\\') (quote : d ≠ q.char)
    (newline : d ≠ '\n') (bare : d ≠ '\r') (filename : String) :
    let text (x : Char) := String.ofList (before ++ x :: after)
    Source.SameOutsideLiterals (Source.prepare (text c) filename)
        (Source.prepare (text d) filename) ∧
      ∀ (α : Type) [Analytic α] (settings : Settings α) (name : String), IsOfCode name →
        (extract settings (text c) filename).get? name =
          (extract settings (text d) filename).get? name := by
  intro text
  have same : Source.SameOutsideLiterals (Source.prepare (text c) filename)
      (Source.prepare (text d) filename) :=
    Source.literal_contents_replaced inside escape quote newline bare filename
  constructor
  · exact same
  · intro α _ settings name ofCode
    exact same_outside_values settings same ofCode

/- The second of two slashes, behind an escaped quote. -/
theorem slash_in_literal_replaced :
    Source.InLiteral .double "#define S \"a\\\"/".toList '/' " b\" 'c'".toList ∧
    (let text (x : Char) := String.ofList ("#define S \"a\\\"/".toList ++ x :: " b\" 'c'".toList)
    Source.SameOutsideLiterals (Source.prepare (text '/') "f.c") (Source.prepare (text '*') "f.c") ∧
      ∀ (α : Type) [Analytic α] (settings : Settings α) (name : String), IsOfCode name →
        (extract settings (text '/') "f.c").get? name =
          (extract settings (text '*') "f.c").get? name) := by
  have escaped (more : List Char) (content : Source.Content .double more) :
      Source.Content .double ('a' :: '\\' :: '"' :: more) :=
    .ordinary (by decide) (by decide) (by decide) (.escaped (by decide) content)
  have apart : Source.Content .double "a\\\"/".toList :=
    escaped ['/'] (Source.plain_content .double ['/'] (by simp [Source.Quote.char]))
  have content : Source.Content .double "a\\\"// b".toList :=
    escaped "// b".toList (Source.plain_content .double _ (by simp [Source.Quote.char]))
  have fit : Source.Segmentation ("#define S ".toList.map .plain ++
      .literal .double ("a\\\"/".toList ++ '/' :: " b".toList) true ::
        [.plain ' ', .literal .single ['c'] true]) :=
    ⟨rfl, rfl, rfl, rfl, rfl, rfl, rfl, rfl, rfl, rfl, content, rfl,
      Source.plain_content .single ['c'] (by simp [Source.Quote.char]), trivial⟩
  have inside : Source.InLiteral .double "#define S \"a\\\"/".toList '/' " b\" 'c'".toList :=
    ⟨fit, rfl, rfl, apart, by decide, by decide⟩
  exact ⟨inside,
    literal_contents_unread inside (by decide) (by decide) (by decide) (by decide) "f.c"⟩

end Authorship
