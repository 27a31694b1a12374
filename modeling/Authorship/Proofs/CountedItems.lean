import Authorship.Proofs.CommentedLines
import Authorship.Proofs.CopiedPositions
import Authorship.Proofs.DoubleShares
import Authorship.Proofs.ExactArithmetic
import Authorship.Proofs.FunctionShapes
import Authorship.Proofs.MeasuredSizes
import Authorship.Proofs.RepeatedLines

/-
What the shares of a text count. For each there is a list of items and the part of it that is
counted. The share of lines with a comment is the exception: where a text ends with a newline in a
block comment, what follows the newline is counted too. A share of such a part lies between zero and
one, as an exact number and as a double, since no text has more items than a double can count.
-/
namespace Authorship

open Analysis Feature Pattern Scalar Source

namespace Analysis

variable {α : Type}

/-- Some of the items of a whole, in their order. -/
structure Part where
  {item : Type}
  whole : List item
  counted : List item
  within : counted.Sublist whole

section

variable {β : Type}

namespace Part

def of (p : β → Bool) (whole : List β) : Part := ⟨whole, whole.filter p, List.filter_sublist⟩

def distinct [BEq β] (whole : List β) : Part :=
  ⟨whole, whole.eraseDups, Lexicon.distinct_sublist whole⟩

/-- The items of the more frequent of two kinds, among those of either. -/
def dominant (p q : β → Bool) (xs : List β) : Part where
  whole := xs.filter p ++ xs.filter q
  counted := if (xs.filter p).length < (xs.filter q).length then xs.filter q else xs.filter p
  within := by
    split
    · exact List.sublist_append_right _ _
    · exact List.sublist_append_left _ _

end Part

variable [Scalar α]

inductive ShareOf (part : Part) : α → Prop where
  | nothing (none : part.counted = []) : ShareOf part zero
  | quotient (some : part.whole ≠ []) :
      ShareOf part (count part.counted.length / count part.whole.length)
  | perCount : ShareOf part (perCount part.counted.length part.whole.length)

theorem share_of_kind (p : β → Bool) (xs : List β) :
    ShareOf (.of p xs) (perCount (xs.countP p) xs.length : α) := by
  rw [List.countP_eq_length_filter]
  exact .perCount

theorem share_of_places {p : Nat → Bool} {counted n : Nat}
    (places : (List.range n).countP p = counted) :
    ShareOf (.of p (List.range n)) (perCount counted n : α) := by
  have share : ShareOf (.of p (List.range n)) (_ : α) := share_of_kind p (List.range n)
  rwa [places, List.length_range] at share

theorem dominant_length (p q : β → Bool) (xs : List β) :
    (Part.dominant p q xs).whole.length = xs.countP p + xs.countP q := by
  simp only [Part.dominant, List.length_append, List.countP_eq_length_filter]

theorem share_of_dominant (p q : β → Bool) (xs : List β) :
    ShareOf (.dominant p q xs) (dominance (xs.countP p) (xs.countP q) : α) := by
  have both := dominant_length p q xs
  have larger : (Part.dominant p q xs).counted.length = max (xs.countP p) (xs.countP q) := by
    simp only [Part.dominant, List.countP_eq_length_filter]
    split <;> omega
  unfold dominance
  split
  · exact .nothing (List.eq_nil_of_length_eq_zero (by omega))
  · rw [← larger, ← both]
    exact .quotient (List.ne_nil_of_length_pos (by omega))

end

/- What is counted in a text. -/

/-- The physical lines that a comment is on. -/
def commentedAmong (segments : List Segment) (lines : Nat) : Part :=
  .of (CommentOn segments ·) (List.range lines)

def declaredNames (s : Prepared) : List (List Char) :=
  (Lexicon.declarations s.masked).map (·.name)

def distinctNames (s : Prepared) : List (List Char) :=
  (Lexicon.identifiers s.maskedLines).eraseDups

def codeSpacings (s : Prepared) : List Spacing :=
  (s.maskedLines.filter (!Lexicon.isPreprocessor ·)).flatMap operationSpacings

def trimmedLines (s : Prepared) : List (List Char) := s.codeLines.map Text.trim

def nonblankRaw (s : Prepared) : List (List Char) := s.rawLines.filter (!Text.isBlankLine ·)

theorem declared_names_length (s : Prepared) :
    (declaredNames s).length = (Lexicon.declarations s.masked).length := List.length_map _

theorem trimmed_lines_length (s : Prepared) : (trimmedLines s).length = s.loc := List.length_map _

section

variable (scanLimit : Nat) (s : Prepared)

/-- What a share counts, and within what. -/
inductive CountedIn : String → Part → Prop where
  | blankLines : CountedIn "basic.blank_ratio" (.of Text.isBlankLine s.rawLines)
  | commentLines {segments : List Segment} (fit : Segmentation segments)
      (whole : textOf segments = Text.withoutCarriageReturns s.raw)
      (closed : ¬ OpenAfterNewline segments) :
      CountedIn "basic.comment_ratio" (commentedAmong segments s.totalLines)
  | indentation : CountedIn "ast.indentation_consistency"
      (.dominant (· == ' ') (· == '\t') (s.codeLines.filterMap List.head?))
  | braces : CountedIn "ast.brace_style_consistency"
      (.dominant (· == true) (· == false) (s.maskedLines.filterMap bracePlacement?))
  | operators : CountedIn "ast.operator_spacing_consistency" (.of isSpaced (codeSpacings s))
  | camelCase : CountedIn "ast.camel_case_ratio" (.of Lexicon.isCamelCase (declaredNames s))
  | snakeCase : CountedIn "ast.snake_case_ratio" (.of Lexicon.isSnakeCase (declaredNames s))
  | singleChar : CountedIn "ast.single_char_vars_ratio"
      (.of (fun d => d.name.length = 1 && !d.inForHeader) (Lexicon.declarations s.masked))
  | hungarian : CountedIn "ast.hungarian_ratio" (.of Lexicon.isHungarian (declaredNames s))
  | uniqueNames : CountedIn "ast.variable_uniqueness_ratio" (.distinct (declaredNames s))
  | recursive : CountedIn "ast.recursive_function_ratio"
      (.of (·.isRecursive s.masked) s.functions)
  | duplicates : CountedIn "redundancy.duplicate_line_ratio"
      (.of (RepeatsAt (trimmedLines s) ·) (List.range s.loc))
  | copied {positions : Finset Nat}
      (copied : Copied scanLimit (intern (trimmedLines s)) positions) :
      CountedIn "redundancy.copy_paste_score" (.of (· ∈ positions) (List.range s.loc))
  | similar : CountedIn "redundancy.similar_function_ratio"
      (.of (· ∈ twins s) (List.finRange s.functions.length))
  | descriptive : CountedIn "naming.descriptive_var_ratio" (.of isDescriptive (declaredNames s))
  | generic : CountedIn "naming.generic_var_ratio" (.of Lexicon.isGeneric (declaredNames s))
  | verbs : CountedIn "naming.verb_function_ratio"
      (.of hasVerb (Lexicon.functionNames s.masked))
  | longNames : CountedIn "naming.descriptive_function_ratio"
      (.of (longFunctionName ≤ ·.length) (Lexicon.functionNames s.masked))
  | meaningful : CountedIn "naming.meaningful_names_score" (.of isMeaningful (distinctNames s))
  | nameStyle : CountedIn "naming.naming_consistency_score"
      (.dominant Lexicon.isCamelCase Lexicon.isSnakeCase (distinctNames s))
  | abbreviations : CountedIn "naming.abbreviation_ratio" (.of isAbbreviation (declaredNames s))
  | boilerplate : CountedIn "ai_pattern.boilerplate_ratio" (.of isBoilerplate s.codeLines)
  | formalComments : CountedIn "ai_pattern.formal_comment_ratio"
      (.of (opens formalComment) s.lineComments)
  | trailingBlanks : CountedIn "human_style.trailing_whitespace_ratio"
      (.of endsWithBlank (nonblankRaw s))
  | mixedIndentation : CountedIn "human_style.mixed_indentation_ratio"
      (.of isMixed (((nonblankRaw s).map lead).filter (!·.isEmpty)))

variable [Scalar α]

/-- What a share is computed from. In a block comment that is open after a last newline, one more is
counted than the lines with a comment, if there are that many lines. -/
inductive Counts : String → α → Prop where
  | items {name : String} {part : Part} {x : α} (counted : CountedIn scanLimit s name part)
      (share : ShareOf part x) : Counts name x
  | openComment {segments : List Segment} (fit : Segmentation segments)
      (whole : textOf segments = Text.withoutCarriageReturns s.raw)
      (openEnd : OpenAfterNewline segments) : Counts "basic.comment_ratio"
        (perCount (min ((commentedAmong segments s.totalLines).counted.length + 1) s.totalLines)
          s.totalLines)
  | overall : Counts "human_style.overall_human_score" ((styleIssues s).overall .default)

end

/- The sizes of what is counted. -/

structure Sized (s : Prepared) (n : Nat) : Prop where
  masked : linesSize s.maskedLines ≤ n
  code : s.loc ≤ n
  total : s.totalLines ≤ n
  raw : s.rawLines.length ≤ n
  comments : s.lineComments.length ≤ n
  functions : s.functions.length ≤ n

theorem prepared_sized (text filename : String) :
    Sized (prepare text filename) (text.length + 1) := by
  have masked := masked_lines_size text filename
  have raw : (Text.lines text.toList).length ≤ text.length + 1 := Text.lines_length text.toList
  have lines := (Text.length_le_size _).trans masked
  refine ⟨masked, ?_, raw, raw, ?_, ?_⟩
  · rw [Prepared.loc, code_lines_length]
    exact lines
  · have comments := line_comments_length_le (marksIn text)
    have marks := marks_length text
    exact comments.trans (marks.trans (Nat.le_succ _))
  · rw [functions_of_masked]
    exact (Lexicon.definitions_length _).trans ((Text.joined_length_le _ _).trans masked)

/-- More than any of the counts that something is divided by. -/
def wholeBound (n : Nat) : Nat := 2 * (n * n)

theorem whole_bound_small {n : Nat} (few : n < 2 ^ 64) : wholeBound (n + 1) < 2 ^ 256 := by
  have square : (n + 1) * (n + 1) ≤ 2 ^ 64 * 2 ^ 64 := Nat.mul_le_mul few few
  rw [wholeBound]
  omega

section

variable {scanLimit : Nat} {s : Prepared} {n : Nat}

theorem le_whole_bound {k : Nat} (le : k ≤ n) : k ≤ wholeBound n := by
  have square := Nat.le_mul_self n
  rw [wholeBound]
  omega

theorem dominant_le_whole_bound {β : Type} (p q : β → Bool) {xs : List β} (le : xs.length ≤ n) :
    (Part.dominant p q xs).whole.length ≤ wholeBound n := by
  have both := dominant_length p q xs
  have first : xs.countP p ≤ xs.length := List.countP_le_length
  have second : xs.countP q ≤ xs.length := List.countP_le_length
  have square := Nat.le_mul_self n
  rw [wholeBound]
  omega

theorem spacings_length_le (lines : List (List Char)) :
    ((lines.filter (!Lexicon.isPreprocessor ·)).flatMap operationSpacings).length ≤
      linesSize lines := by
  have each (line : List Char) :
      (operationSpacings line).length ≤ countMatches binaryOperation line :=
    List.length_filterMap_le _ _
  exact (Lexicon.found_length_le binaryOperation each _).trans (Lexicon.filter_size_le _ lines)

theorem declared_length_le (sized : Sized s n) :
    (Lexicon.declarations s.masked).length ≤ wholeBound n := by
  have text : s.masked.length ≤ n := (Text.joined_length_le _ _).trans sized.masked
  have declared := Lexicon.declarations_length s.masked
  have square := Nat.mul_le_mul text text
  rw [wholeBound]
  omega

theorem distinct_names_length_le (sized : Sized s n) : (distinctNames s).length ≤ n :=
  (Lexicon.distinct_sublist _).length_le.trans
    ((Lexicon.identifiers_length _).trans sized.masked)

theorem nonblank_length_le (sized : Sized s n) : (nonblankRaw s).length ≤ n :=
  (List.length_filter_le _ _).trans sized.raw

theorem leads_length_le (sized : Sized s n) :
    (((nonblankRaw s).map lead).filter (!·.isEmpty)).length ≤ n := by
  refine (List.length_filter_le _ _).trans ?_
  rw [List.length_map]
  exact nonblank_length_le sized

theorem whole_length_le (sized : Sized s n) {name : String} {part : Part}
    (counted : CountedIn scanLimit s name part) : part.whole.length ≤ wholeBound n := by
  have declared : (declaredNames s).length ≤ wholeBound n :=
    (declared_names_length s).trans_le (declared_length_le sized)
  have functionNames : (Lexicon.functionNames s.masked).length ≤ n :=
    (Lexicon.function_names_length _).trans ((Text.joined_length_le _ _).trans sized.masked)
  have places {k : Nat} (le : k ≤ n) : (List.range k).length ≤ wholeBound n :=
    List.length_range.trans_le (le_whole_bound le)
  have maskedLines := (Text.length_le_size _).trans sized.masked
  cases counted with
  | blankLines => exact le_whole_bound sized.raw
  | commentLines => exact places sized.total
  | duplicates | copied => exact places sized.code
  | indentation =>
    exact dominant_le_whole_bound _ _ ((List.length_filterMap_le _ _).trans sized.code)
  | braces => exact dominant_le_whole_bound _ _ ((List.length_filterMap_le _ _).trans maskedLines)
  | operators => exact le_whole_bound ((spacings_length_le _).trans sized.masked)
  | singleChar => exact declared_length_le sized
  | camelCase | snakeCase | hungarian | uniqueNames | descriptive | generic | abbreviations =>
    exact declared
  | recursive => exact le_whole_bound sized.functions
  | similar => exact List.length_finRange.trans_le (le_whole_bound sized.functions)
  | verbs | longNames => exact le_whole_bound functionNames
  | meaningful => exact le_whole_bound (distinct_names_length_le sized)
  | nameStyle => exact dominant_le_whole_bound _ _ (distinct_names_length_le sized)
  | boilerplate => exact le_whole_bound sized.code
  | formalComments => exact le_whole_bound sized.comments
  | trailingBlanks => exact le_whole_bound (nonblank_length_le sized)
  | mixedIndentation => exact le_whole_bound (leads_length_le sized)

end

/- Shares as exact numbers and as doubles. -/

theorem nonblank_lines_counted (s : Prepared) :
    (spacingIssues s).nonblankLines = (nonblankRaw s).length := by
  rw [spacingIssues, List.partition_eq_filter_filter]
  rfl

theorem quotient_share_exact {part whole : Nat} (within : part ≤ whole) (some : 0 < whole) :
    IsShare ((part : Rat) / whole) := by
  have positive : (0 : Rat) < whole := by exact_mod_cast some
  refine ⟨div_nonneg (by positivity) positive.le, (div_le_one positive).mpr ?_⟩
  exact_mod_cast within

theorem per_count_share_exact {part whole : Nat} (within : part ≤ whole) :
    IsShare (perCount part whole : Rat) := by
  rw [exact_per_count]
  exact quotient_share_exact (by omega) (by omega)

section

variable {scanLimit : Nat} {s : Prepared} {name : String}

theorem counted_share_exact {x : Rat} (counts : Counts scanLimit s name x) : IsShare x := by
  cases counts with
  | @items _ part _ counted share =>
    have within := part.within.length_le
    cases share with
    | nothing none => exact ⟨le_refl 0, zero_le_one⟩
    | quotient some => exact quotient_share_exact within (List.length_pos_iff.mpr some)
    | perCount => exact per_count_share_exact within
  | openComment => exact per_count_share_exact (Nat.min_le_right _ _)
  | overall => exact clamp_within zero_le_one _

theorem counted_share_double {n : Nat} (sized : Sized s n) (small : wholeBound n < 2 ^ 256)
    {x : Float} (counts : Counts scanLimit s name x) : IsShare x := by
  have few {k : Nat} (le : k ≤ n) : k < 2 ^ 256 := (le_whole_bound le).trans_lt small
  cases counts with
  | @items _ part _ counted share =>
    have within := part.within.length_le
    have bound := (whole_length_le sized counted).trans_lt small
    cases share with
    | nothing none => decide +kernel
    | quotient some => exact quotient_share within (List.length_pos_iff.mpr some) bound rfl
    | perCount => exact per_count_share within bound
  | openComment => exact per_count_share (Nat.min_le_right _ _) (few sized.total)
  | overall =>
    have nonblank : (spacingIssues s).nonblankLines ≤ n := by
      rw [nonblank_lines_counted]
      exact nonblank_length_le sized
    exact overall_share (few nonblank) (few (leads_length_le sized))
      (few (distinct_names_length_le sized)) (few sized.code)

end

end Analysis

end Authorship
