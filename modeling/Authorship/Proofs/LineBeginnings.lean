import Authorship.Analysis.Structure
import Authorship.Proofs.CodeLines
import Mathlib.Data.List.TakeWhile

/-
Lines up to their first quote. What the measurements of structure read off a line of code, its
indentation and whether it includes a file or defines a macro, stands before any quote.
-/
namespace Authorship

namespace Text

def isQuote (c : Char) : Bool := c = '"' || c = '\''

def beforeQuote (line : List Char) : List Char := line.takeWhile (!isQuote ·)

theorem quote_cases {c : Char} (quote : isQuote c = true) : c = '"' ∨ c = '\'' := by
  simpa [isQuote] using quote

theorem not_the_quote {c q : Char} (other : isQuote c = false) (quote : isQuote q = true) :
    c ≠ q := by
  rintro rfl
  exact absurd quote (by simp [other])

theorem before_quote_other {c : Char} (line : List Char) (other : isQuote c = false) :
    beforeQuote (c :: line) = c :: beforeQuote line := by
  simp [beforeQuote, other]

theorem before_quote_at {c : Char} (line : List Char) (quote : isQuote c = true) :
    beforeQuote (c :: line) = [] := by
  simp [beforeQuote, quote]

theorem before_quote_cut {q : Char} (quote : isQuote q = true) (start tail tail' : List Char) :
    beforeQuote (start ++ q :: tail) = beforeQuote (start ++ q :: tail') := by
  induction start with
  | nil => rw [List.nil_append, List.nil_append, before_quote_at _ quote, before_quote_at _ quote]
  | cons c start ih =>
    rw [List.cons_append, List.cons_append]
    cases stop : isQuote c with
    | true => rw [before_quote_at _ stop, before_quote_at _ stop]
    | false => rw [before_quote_other _ stop, before_quote_other _ stop, ih]

theorem quote_is_visible {c : Char} (quote : isQuote c = true) : isBlank c = false := by
  rcases quote_cases quote with rfl | rfl <;> decide

theorem trim_start_before (line : List Char) :
    trimStart (beforeQuote line) = beforeQuote (trimStart line) := by
  induction line with
  | nil => rfl
  | cons c line ih =>
    cases stop : isQuote c with
    | true =>
      have visible := quote_is_visible stop
      simp [before_quote_at line stop, trimStart, visible]
    | false =>
      rw [before_quote_other line stop]
      cases blank : isBlank c with
      | true => simpa [trimStart, blank] using ih
      | false => simp [trimStart, blank, before_quote_other line stop]

theorem prefix_before_quote {cs : List Char} (unquoted : cs.any isQuote = false)
    (line : List Char) : cs.isPrefixOf (beforeQuote line) = cs.isPrefixOf line := by
  induction cs generalizing line with
  | nil => simp
  | cons c cs ih =>
    obtain ⟨first, others⟩ := Bool.or_eq_false_iff.mp unquoted
    cases line with
    | nil => rfl
    | cons d line =>
      cases stop : isQuote d with
      | true => simp [before_quote_at line stop, List.isPrefixOf, not_the_quote first stop]
      | false => simp [before_quote_other line stop, List.isPrefixOf, ih others line]

end Text

open Text

namespace Pattern

def cut (place : Cursor) : Cursor := { place with ahead := beforeQuote place.ahead }

def Blind (p : Pattern) : Prop := ∀ place, p (cut place) = (p place).map cut

theorem satisfying_blind {p : Char → Bool} (unquoted : ∀ c, isQuote c = true → p c = false) :
    Blind (satisfying p) := by
  intro place
  obtain ⟨before, taken, ahead⟩ := place
  cases ahead with
  | nil => rfl
  | cons c ahead =>
    cases stop : isQuote c with
    | true => simp [cut, before_quote_at ahead stop, satisfying, unquoted c stop]
    | false =>
      simp only [cut, before_quote_other ahead stop, satisfying]
      split <;> rfl

theorem span_blind {p : Char → Bool} (unquoted : ∀ c, isQuote c = true → p c = false) :
    Blind (span p) := by
  rintro ⟨before, taken, ahead⟩
  have ends : spanFrom p before taken (beforeQuote ahead) =
      cut (spanFrom p before taken ahead) := by
    induction ahead generalizing taken with
    | nil => rfl
    | cons c ahead ih =>
      cases stop : isQuote c with
      | true => simp [before_quote_at ahead stop, spanFrom, unquoted c stop, cut]
      | false =>
        rw [before_quote_other ahead stop, spanFrom, spanFrom, ih]
        split
        · rfl
        · simp [cut, before_quote_other ahead stop]
  exact congrArg (fun place => [place]) ends

theorem sequence_blind {ps : List Pattern} (blind : ∀ p ∈ ps, Blind p) : Blind (sequence ps) := by
  induction ps with
  | nil =>
    intro place
    rfl
  | cons p ps ih =>
    obtain ⟨first, others⟩ := List.forall_mem_cons.mp blind
    cases ps with
    | nil => exact first
    | cons p' ps =>
      intro place
      have later : ∀ next, sequence (p' :: ps) (cut next) = (sequence (p' :: ps) next).map cut :=
        ih others
      simp only [sequence, from_each_eq_flat_map, first place, List.flatMap_map, List.map_flatMap]
      exact congrArg (List.flatMap · (p place)) (funext later)

theorem span1_blind {p : Char → Bool} (unquoted : ∀ c, isQuote c = true → p c = false) :
    Blind (span1 p) := by
  apply sequence_blind
  rw [List.forall_mem_cons, List.forall_mem_singleton]
  exact ⟨satisfying_blind unquoted, span_blind unquoted⟩

theorem expect_before_quote {cs : List Char} (unquoted : cs.any isQuote = false)
    (before taken ahead : List Char) : expect before taken cs (beforeQuote ahead) =
      (expect before taken cs ahead).map cut := by
  induction cs generalizing taken ahead with
  | nil => rfl
  | cons c cs ih =>
    obtain ⟨first, others⟩ := Bool.or_eq_false_iff.mp unquoted
    cases ahead with
    | nil => rfl
    | cons d ahead =>
      cases stop : isQuote d with
      | true => simp [before_quote_at ahead stop, expect, not_the_quote first stop]
      | false =>
        rw [before_quote_other ahead stop, expect, expect, ih others]
        split <;> rfl

theorem literal_blind {text : String} (unquoted : text.toList.any isQuote = false) :
    Blind (literal text) := by
  rintro ⟨before, taken, ahead⟩
  simp only [literal, literals, cut, expect_before_quote unquoted before taken ahead]
  cases expect before taken text.toList ahead <;> rfl

theorem opens_before_quote {p : Pattern} (blind : Blind p) (line : List Char) :
    opens p (beforeQuote line) = opens p line := by
  have shorter : p ⟨[], [], beforeQuote line⟩ = (p ⟨[], [], line⟩).map cut := blind ⟨[], [], line⟩
  simp only [opens, matchAt?, shorter, List.head?_map, Option.isSome_map]

end Pattern

namespace Lexicon

theorem include_before_quote (line : List Char) :
    isInclude (beforeQuote line) = isInclude line := by
  rw [isInclude, isInclude, trim_start_before]
  cases trimStart line with
  | nil => rfl
  | cons c rest =>
    cases stop : isQuote c with
    | true =>
      have other : c ≠ '#' := (not_the_quote (by decide) stop).symm
      simp [before_quote_at rest stop, other]
    | false =>
      rw [before_quote_other rest stop]
      by_cases sign : c = '#'
      · subst sign
        simp only [trim_start_before]
        exact prefix_before_quote (by decide) _
      · simp [sign]

theorem indent_before_quote (line : List Char) :
    indentColumns (beforeQuote line) = indentColumns line := by
  have same : (beforeQuote line).takeWhile isBlank = line.takeWhile isBlank := by
    rw [beforeQuote, List.takeWhile_takeWhile]
    congr 1
    funext c
    cases stop : isQuote c with
    | true => simp [quote_is_visible stop]
    | false => simp
  rw [indentColumns, indentColumns, same]

end Lexicon

namespace Analysis

open Pattern

theorem macro_is_blind : Blind macroDefinition := by
  have blank : ∀ c, isQuote c = true → isBlank c = false := fun c => quote_is_visible
  have sign : ∀ c, isQuote c = true → (c == '#') = false := by
    intro c quote
    rcases quote_cases quote with rfl | rfl <;> decide
  have inWord : ∀ c, isQuote c = true → isWord c = false := by
    intro c quote
    rcases quote_cases quote with rfl | rfl <;> decide
  apply sequence_blind
  intro p member
  simp only [List.mem_cons, List.not_mem_nil, or_false] at member
  rcases member with rfl | rfl | rfl | rfl | rfl | rfl
  · exact span_blind blank
  · exact satisfying_blind sign
  · exact span_blind blank
  · exact literal_blind (by decide)
  · exact span1_blind blank
  · exact span1_blind inWord

theorem first_before_quote {c : Char} (other : isQuote c = false) (line : List Char) :
    (beforeQuote line).head? = some c ↔ line.head? = some c := by
  cases line with
  | nil => rfl
  | cons d line =>
    cases stop : isQuote d with
    | true => simp [before_quote_at line stop, (not_the_quote other stop).symm]
    | false => simp [before_quote_other line stop]

theorem count_leads (c : Char) (lines : List (List Char)) :
    (lines.filterMap List.head?).count c = lines.countP (·.head? = some c) := by
  induction lines with
  | nil => rfl
  | cons line lines ih =>
    cases line <;> simp [List.filterMap_cons, List.count_cons, List.countP_cons, ih]

/- Lines that agree up to their first quotes. -/
section

variable {lines lines' : List (List Char)} (same : lines.map beforeQuote = lines'.map beforeQuote)
include same

theorem map_alike {β : Type} {f : List Char → β} (reads : ∀ line, f (beforeQuote line) = f line) :
    lines.map f = lines'.map f := by
  have through (lines : List (List Char)) : (lines.map beforeQuote).map f = lines.map f := by
    rw [List.map_map]
    exact List.map_congr_left fun line _ => reads line
  rw [← through lines, same, through lines']

theorem count_alike {p : List Char → Bool} (reads : ∀ line, p (beforeQuote line) = p line) :
    lines.countP p = lines'.countP p := by
  have mapped (lines : List (List Char)) : lines.countP p = (lines.map p).countP id := by
    rw [List.countP_map]
    rfl
  rw [mapped, mapped, map_alike same reads]

theorem leads_alike {c : Char} (other : isQuote c = false) :
    (lines.filterMap List.head?).count c = (lines'.filterMap List.head?).count c := by
  rw [count_leads, count_leads]
  apply count_alike same
  intro line
  simp only [first_before_quote other]

theorem length_alike : lines.length = lines'.length := by
  have lengths := congrArg List.length same
  rwa [List.length_map, List.length_map] at lengths

end

def countsLiterals (line : List Char) : Bool :=
  !Lexicon.isInclude line && !opens macroDefinition line

theorem counts_before_quote (line : List Char) :
    countsLiterals (beforeQuote line) = countsLiterals line := by
  rw [countsLiterals, countsLiterals, Lexicon.include_before_quote,
    opens_before_quote macro_is_blind]

/- Numbers are counted in the masked lines, but not on lines that are a directive's. -/
theorem numbers_alike {s s' : Source.Prepared}
    (same : s.codeLines.map beforeQuote = s'.codeLines.map beforeQuote)
    (masked : s.maskedLines = s'.maskedLines) :
    (literalLines s).map (countMatches longNumber ·.2) =
      (literalLines s').map (countMatches longNumber ·.2) := by
  have through (s : Source.Prepared) : (literalLines s).map (countMatches longNumber ·.2) =
      (((s.codeLines.map countsLiterals).zip s.maskedLines).filter (·.1)).map
        (countMatches longNumber ·.2) :=
    Source.kept_seconds countsLiterals (countMatches longNumber) s.codeLines s.maskedLines
  rw [through, through, map_alike same counts_before_quote, masked]

theorem structure_alike {α : Type} [Scalar α] {s s' : Source.Prepared}
    (same : s.codeLines.map beforeQuote = s'.codeLines.map beforeQuote)
    (masked : s.maskedLines = s'.maskedLines) (functions : s.functions = s'.functions) :
    (structureMetrics s' : Metrics α) =
      { structureMetrics s with
        stringLiterals := (structureMetrics s' : Metrics α).stringLiterals } := by
  have loc : s.loc = s'.loc := length_alike same
  have empty : s.isEmpty = s'.isEmpty := by
    rw [Bool.eq_iff_iff, Source.Prepared.isEmpty, Source.Prepared.isEmpty,
      List.isEmpty_iff_length_eq_zero, List.isEmpty_iff_length_eq_zero, length_alike same]
  have text : s.masked = s'.masked := congrArg (Text.joinWith '\n') masked
  have depths : s.codeLines.map (Lexicon.indentColumns · / indentWidth) =
      s'.codeLines.map (Lexicon.indentColumns · / indentWidth) := by
    apply map_alike same
    intro line
    rw [Lexicon.indent_before_quote]
  have spaces := leads_alike same (by decide : isQuote ' ' = false)
  have tabs := leads_alike same (by decide : isQuote '\t' = false)
  have includes := count_alike same Lexicon.include_before_quote
  have macros :
      s.codeLines.countP (fun line => !Lexicon.isInclude line && opens macroDefinition line) =
        s'.codeLines.countP fun line => !Lexicon.isInclude line && opens macroDefinition line := by
    apply count_alike same
    intro line
    rw [Lexicon.include_before_quote, opens_before_quote macro_is_blind]
  -- Without code nothing is measured, and the number of literals is zero on both sides.
  rw [structureMetrics, structureMetrics, empty]
  cases s'.isEmpty with
  | true => rfl
  | false =>
    simp only [loc, text, depths, spaces, tabs, includes, macros, numbers_alike same masked, masked,
      functions]
    rfl

end Analysis

end Authorship
