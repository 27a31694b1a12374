import Authorship.Proofs.ExtractedVector
import Authorship.Proofs.ReplacedSegments

/-
What a comment says. Another character in its place, one that does not end the line or the comment,
leaves the code as it was, and with it every measurement of code. Of comments these count the lines
only.
-/
namespace Authorship

open Analysis Feature

namespace Source

/-- The character stands after the two slashes of a line comment, before the line ends. The
carriage return of the newline is one of these characters. -/
inductive InLineComment (before : List Char) (c : Char) (after : List Char) : Prop where
  | intro {earlier later : List Segment} {held rest : List Char}
      (fit : Segmentation (earlier ++ .lineComment (held ++ rest) :: later))
      (begins : Text.withoutCarriageReturns before = textOf earlier ++ '/' :: '/' :: held)
      (goesOn : Text.withoutCarriageReturns (c :: after) = rest ++ textOf later)
      (newline : c ≠ '\n')

/-- The character stands between the opener of a block comment and its closer, or the end of the
text if there is none. -/
inductive InBlockComment (before : List Char) (c : Char) (after : List Char) : Prop where
  | intro {earlier later : List Segment} {held rest : List Char} {closed : Bool}
      (fit : Segmentation (earlier ++ .blockComment (held ++ rest) closed :: later))
      (begins : Text.withoutCarriageReturns before = textOf earlier ++ '/' :: '*' :: held)
      (goesOn : Text.withoutCarriageReturns (c :: after) =
        rest ++ ((if closed then blockEnd else []) ++ textOf later))
      (within : rest ≠ [])
      (newline : c ≠ '\n')

theorem rest_after {c : Char} {after rest tail : List Char}
    (goesOn : Text.withoutCarriageReturns (c :: after) = rest ++ tail)
    (within : rest ≠ [] ∨ tail.head? ≠ some c) :
    ∃ rest', Text.withoutCarriageReturns after = rest' ++ tail ∧
      (rest = rest' ∨ rest = c :: rest') := by
  -- The character is dropped if it is the carriage return of a newline, which is never replaced.
  rcases Text.returns_next c after with kept | dropped
  · rw [kept] at goesOn
    cases rest with
    | nil =>
      rw [List.nil_append] at goesOn
      simp [← goesOn] at within
    | cons x rest =>
      obtain ⟨rfl, more⟩ := List.cons.inj goesOn
      exact ⟨rest, more, Or.inr rfl⟩
  · exact ⟨rest, dropped.symm.trans goesOn, Or.inl rfl⟩

theorem no_closer_inserted {d : Char} (star : d ≠ '*') (slash : d ≠ '/') {xs ys : List Char}
    (before : ¬ blockEnd <:+: xs) (after : ¬ blockEnd <:+: ys) :
    ¬ blockEnd <:+: xs ++ d :: ys := by
  induction xs with
  | nil =>
    rw [List.nil_append, no_closer_cons]
    exact ⟨fun opens => star opens.1, after⟩
  | cons x xs ih =>
    rw [no_closer_cons] at before
    rw [List.cons_append, no_closer_cons]
    refine ⟨?_, ih before.2⟩
    -- Only the last character of the first part has the inserted one next to it.
    rintro ⟨first, next⟩
    cases xs with
    | nil => exact slash (Option.some.inj next)
    | cons y xs => exact before.1 ⟨first, next⟩

theorem body_replaced {c d : Char} {held rest rest' tail : List Char} (star : d ≠ '*')
    (slash : d ≠ '/') (old : rest = rest' ∨ rest = c :: rest')
    (none : ¬ blockEnd <:+: held ++ rest ++ tail) :
    ¬ blockEnd <:+: held ++ d :: rest' ++ tail := by
  have parts : ∃ between, held ++ rest ++ tail = held ++ (between ++ (rest' ++ tail)) := by
    rcases old with rfl | rfl
    · exact ⟨[], by simp⟩
    · exact ⟨[c], by simp⟩
  obtain ⟨between, same⟩ := parts
  rw [same] at none
  rw [List.append_assoc, List.cons_append]
  apply no_closer_inserted star slash
  · intro inside
    exact none (inside.trans (List.infix_append' [] held _))
  · intro inside
    apply none
    rw [← List.append_assoc]
    exact inside.trans (List.suffix_append _ _).isInfix

theorem newlines_replaced {c d : Char} {rest rest' : List Char} (held : List Char)
    (inLine : c ≠ '\n') (inLine' : d ≠ '\n') (old : rest = rest' ∨ rest = c :: rest') :
    (held ++ rest).filter (· = '\n') = (held ++ d :: rest').filter (· = '\n') := by
  rcases old with rfl | rfl <;> simp [inLine, inLine']

theorem signals_of_block (body : List Char) (closed : Bool) :
    signals (Segment.blockComment body closed).marks =
      .blockOpener :: signals ((body.filter (· = '\n')).map blockMark) := by
  have inside :
      signals (body.map blockMark) = signals ((body.filter (· = '\n')).map blockMark) := by
    induction body with
    | nil => rfl
    | cons c body ih =>
      rw [signals, signals] at ih
      by_cases newline : c = '\n'
      · simp only [signals, newline, List.filter_cons, List.map_cons, decide_true, if_true, ih]
      · simpa [signals, blockMark, Role.signals, newline] using ih
  rw [← inside]
  cases closed <;> simp [signals, Segment.marks, Role.signals, List.filter_cons]

theorem signals_of_line (body : List Char) :
    signals (Segment.lineComment body).marks = [.lineOpener] := by
  simp [signals, Segment.marks, Role.signals, List.filter_cons, Function.comp_def]

/-- What the measurements of code are taken from. -/
structure SameCode (s s' : Prepared) : Prop extends SameMasked s s' where
  codeLines : s.codeLines = s'.codeLines

theorem same_code {text text' : String} {earlier later : List Segment} {segment segment' : Segment}
    (r : Replacement text text' earlier segment segment' later)
    (code : segment.code = segment'.code) (masked : segment.masked = segment'.masked)
    (same : signals segment.marks = signals segment'.marks) (filename : String) :
    SameCode (prepare text filename) (prepare text' filename) := by
  have codeAlike := code_replaced r code
  constructor
  · exact same_masked r masked (by rw [codeAlike]) same filename
  · rw [code_lines_of_marks, code_lines_of_marks, keptLines, keptLines, codeAlike,
      masked_replaced r masked]

variable {before after : List Char} {c d : Char}

theorem line_comment_replaced (inside : InLineComment before c after) (inLine' : d ≠ '\n')
    (bare : d ≠ '\r') (filename : String) :
    SameCode (prepare (String.ofList (before ++ c :: after)) filename)
      (prepare (String.ofList (before ++ d :: after)) filename) := by
  obtain ⟨fit, begins, goesOn, inLine⟩ := inside
  rename_i earlier later held rest
  obtain ⟨oneLine, ends⟩ := fits_of_member fit
  have within : rest ≠ [] ∨ (textOf later).head? ≠ some c := by
    right
    rcases ends with h | ⟨more, h⟩ <;> simp [h, Ne.symm inLine]
  obtain ⟨rest', goesOn', old⟩ := rest_after goesOn within
  have oneLine' : '\n' ∉ held ++ d :: rest' := by
    simp only [List.mem_append, List.mem_cons, not_or] at oneLine ⊢
    refine ⟨oneLine.1, Ne.symm inLine', ?_⟩
    rcases old with rfl | rfl
    · exact oneLine.2
    · exact fun member => oneLine.2 (List.mem_cons_of_mem c member)
  have goesOn'' : Text.withoutCarriageReturns (d :: after) = d :: rest' ++ textOf later := by
    rw [Text.returns_cons after bare, goesOn', List.cons_append]
  have fits (following : List Char)
      (fits : (Segment.lineComment (held ++ rest)).FitsBefore following) :
      (Segment.lineComment (held ++ d :: rest')).FitsBefore following := ⟨oneLine', fits.2⟩
  have replaced := character_replaced fit (fits _) inLine inLine' begins goesOn goesOn'' rfl rfl
  apply same_code replaced rfl rfl
  rw [signals_of_line, signals_of_line]

theorem block_comment_replaced (inside : InBlockComment before c after) (inLine' : d ≠ '\n')
    (bare : d ≠ '\r') (star : d ≠ '*') (slash : d ≠ '/') (filename : String) :
    SameCode (prepare (String.ofList (before ++ c :: after)) filename)
      (prepare (String.ofList (before ++ d :: after)) filename) := by
  obtain ⟨fit, begins, goesOn, within, inLine⟩ := inside
  rename_i earlier later held rest closed
  obtain ⟨rest', goesOn', old⟩ := rest_after goesOn (Or.inl within)
  have newlines := newlines_replaced held inLine inLine' old
  have fits (following : List Char)
      (fits : (Segment.blockComment (held ++ rest) closed).FitsBefore following) :
      (Segment.blockComment (held ++ d :: rest') closed).FitsBefore following := by
    cases closed with
    | true => exact body_replaced star slash old fits
    | false =>
      refine ⟨?_, fits.2⟩
      have none := fits.1
      rw [← List.append_nil (held ++ rest)] at none
      rw [← List.append_nil (held ++ d :: rest')]
      exact body_replaced star slash old none
  have form (rest : List Char) : (Segment.blockComment (held ++ rest) closed).text =
      '/' :: '*' :: held ++ (rest ++ if closed then blockEnd else []) := by
    simp [Segment.text]
  have goesOn'' : Text.withoutCarriageReturns (d :: after) =
      d :: rest' ++ ((if closed then blockEnd else []) ++ textOf later) := by
    rw [Text.returns_cons after bare, goesOn', List.cons_append]
  rw [← List.append_assoc] at goesOn goesOn''
  have replaced := character_replaced fit (fits _) inLine inLine' begins goesOn goesOn'' (form rest)
    (form (d :: rest'))
  apply same_code replaced
  · rw [Segment.code, Segment.code, newlines]
  · simp only [Segment.masked, Segment.code, newlines]
  · rw [signals_of_block, signals_of_block, newlines]

end Source

namespace Analysis

def codeGroups : List String := ["ast", "redundancy", "naming", "complexity"]

variable {α : Type} [Analytic α]

theorem same_code_measures (c : Settings α) {s s' : Source.Prepared} (same : Source.SameCode s s')
    {family : Family} (ofCode : family.featureNamespace ∈ codeGroups) :
    family.measure c s = family.measure c s' := by
  obtain ⟨⟨masked, functions, comments⟩, code⟩ := same
  cases s
  cases s'
  subst code masked functions comments
  cases family with
  | aiPattern => exact absurd ofCode (by decide)
  | humanStyle => exact absurd ofCode (by decide)
  | _ => rfl

theorem same_code_values (c : Settings α) {s s' : Source.Prepared} (same : Source.SameCode s s')
    {name : String} (ofCode : namespaceOf name ∈ codeGroups) :
    (extractPrepared c s).get? name = (extractPrepared c s').get? name := by
  refine agreeing_values c (fun name => namespaceOf name ∈ codeGroups) ?_ ?_ ofCode
  · intro name
    rw [namespace_of_joined (by decide)]
    decide
  · intro family
    by_cases asked : family.featureNamespace ∈ codeGroups
    · right
      rw [same_code_measures c same asked]
    · left
      intro name
      rwa [namespace_of_joined (namespaces_undotted family)]

end Analysis

/-- Another character in a comment, one that does not end its line or, in a block comment, begin or
end a closer, changes neither the code nor the number of lines with comments, and no measurement of
code, whatever is left out and however it is weighted. -/
theorem comment_contents_unread {before after : List Char} {c d : Char}
    (inside : Source.InLineComment before c after ∨
      Source.InBlockComment before c after ∧ d ≠ '*' ∧ d ≠ '/')
    (newline : d ≠ '\n') (bare : d ≠ '\r') (filename : String) :
    let text (x : Char) := String.ofList (before ++ x :: after)
    Source.SameCode (Source.prepare (text c) filename) (Source.prepare (text d) filename) ∧
      ∀ (α : Type) [Analytic α] (settings : Settings α) (name : String),
        namespaceOf name ∈ codeGroups →
          (extract settings (text c) filename).get? name =
            (extract settings (text d) filename).get? name := by
  intro text
  have same : Source.SameCode (Source.prepare (text c) filename)
      (Source.prepare (text d) filename) := by
    rcases inside with line | ⟨block, star, slash⟩
    · exact Source.line_comment_replaced line newline bare filename
    · exact Source.block_comment_replaced block newline bare star slash filename
  constructor
  · exact same
  · intro α _ settings name ofCode
    exact same_code_values settings same ofCode

/- A star with another one before and after it, where a quote then stands. -/
theorem star_in_comment_replaced :
    Source.InBlockComment "f(/**".toList '*' "* */); // it's".toList ∧
    (let text (x : Char) := String.ofList ("f(/**".toList ++ x :: "* */); // it's".toList)
    Source.SameCode (Source.prepare (text '*') "f.c") (Source.prepare (text '"') "f.c") ∧
      ∀ (α : Type) [Analytic α] (settings : Settings α) (name : String),
        namespaceOf name ∈ codeGroups →
          (extract settings (text '*') "f.c").get? name =
            (extract settings (text '"') "f.c").get? name) := by
  have unclosed : ¬ Source.blockEnd <:+: "*** *".toList := by decide
  have fit : Source.Segmentation ([.plain 'f', .plain '('] ++
      .blockComment ("*".toList ++ "** ".toList) true ::
        [.plain ')', .plain ';', .plain ' ', .lineComment " it's".toList]) :=
    ⟨rfl, rfl, unclosed, rfl, rfl, rfl, ⟨by decide, Or.inl rfl⟩, trivial⟩
  have inside : Source.InBlockComment "f(/**".toList '*' "* */); // it's".toList :=
    ⟨fit, rfl, rfl, by decide, by decide⟩
  exact ⟨inside, comment_contents_unread (Or.inr ⟨inside, by decide, by decide⟩) (by decide)
    (by decide) "f.c"⟩

end Authorship
