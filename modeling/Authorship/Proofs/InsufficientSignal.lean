import Authorship.Proofs.CodeLines
import Authorship.Proofs.DoubleSign
import Authorship.Proofs.ExtractedVector
import Authorship.Proofs.Verdicts

/-
When a detection has nothing to go by. The count of code lines is measured whatever is left out,
and it is stored as zero only if it is zero. The answer for too little signal is therefore given for
the files that have nothing but comments and blanks, and for no others.
-/
namespace Authorship

namespace Source

/-- Nothing but a comment, or a blank outside of all comments. -/
def Segment.Silent : Segment → Prop
  | .plain c => Text.isBlank c = true
  | .lineComment _ | .blockComment _ _ => True
  | .literal _ _ _ => False

theorem silent_iff (segment : Segment) :
    segment.Silent ↔ ∀ c ∈ segment.code, Text.isBlank c = true := by
  cases segment with
  | plain c => simp [Segment.Silent, Segment.code]
  | lineComment body => simp [Segment.Silent, Segment.code]
  | blockComment body closed =>
    refine iff_of_true trivial fun c kept => ?_
    have left : c = '\n' ∨ c = ' ' := by
      cases closed <;> simp [Segment.code] at kept <;> tauto
    rcases left with rfl | rfl <;> decide
  | literal q body closed =>
    -- A literal has its quote at least.
    refine iff_of_false id fun blank => ?_
    have opened : Text.isBlank q.char = true := blank q.char (by simp [Segment.code, Segment.text])
    cases q <;> exact absurd opened (by decide)

theorem blank_code_iff_silent {segments : List Segment} (fit : Segmentation segments) :
    (∀ c ∈ codeText (scan .code (textOf segments)), Text.isBlank c = true) ↔
      ∀ segment ∈ segments, segment.Silent := by
  rw [code_of_segments fit]
  simp only [silent_iff, List.mem_flatMap]
  constructor
  · intro blank segment member c inside
    exact blank c ⟨segment, member, inside⟩
  · rintro silent c ⟨segment, member, inside⟩
    exact silent segment member c inside

theorem no_code_iff_blank (text filename : String) : (prepare text filename).codeLines = [] ↔
    ∀ c ∈ codeOf text.toList, Text.isBlank c = true := by
  rw [code_lines_eq]
  exact no_lines_iff _

/-- There is one segmentation of a text, so that it makes no difference which one is meant. -/
theorem no_code_iff_silent (text filename : String) : (prepare text filename).codeLines = [] ↔
    ∃ segments, Segmentation segments ∧
      textOf segments = Text.withoutCarriageReturns text.toList ∧
      ∀ segment ∈ segments, segment.Silent := by
  obtain ⟨segments, fit, whole⟩ :=
    every_text_has_a_segmentation (Text.withoutCarriageReturns text.toList)
  rw [no_code_iff_blank, codeOf, ← whole]
  constructor
  · intro blank
    exact ⟨segments, fit, rfl, (blank_code_iff_silent fit).mp blank⟩
  · rintro ⟨others, fit', same, silent⟩
    rw [← same]
    exact (blank_code_iff_silent fit').mpr silent

end Source

namespace Feature

theorem sanitize_positive {b : Bound Float} (low : b.low = Scalar.zero)
    (high : Scalar.zero < b.high) {x : Float} (positive : Scalar.zero < x) :
    Scalar.zero < b.sanitize x := by
  have isNumber : Scalar.isNaN x = false := greater_is_number positive
  have notBelow : ¬ x < b.low := low ▸ double_lt_asymm positive
  rw [Bound.sanitize, isNumber, if_neg Bool.false_ne_true]
  by_cases finite : Scalar.isFinite x = true
  · rw [finite, if_neg (by decide), Scalar.clamp, if_neg notBelow]
    split
    · exact high
    · exact positive
  · rw [Bool.eq_false_iff.mpr finite, if_pos (by decide), if_pos positive]
    exact high

theorem stored_count_zero_iff (n : Nat) :
    sanitizeNamed "basic.loc" (Scalar.count n : Float) ≤ Scalar.zero ↔ n = 0 := by
  constructor
  · intro atMost
    by_contra nonzero
    have positive : (Scalar.zero : Float) < Scalar.count n :=
      count_positive (Nat.pos_of_ne_zero nonzero)
    have stored : Scalar.zero < sanitizeNamed "basic.loc" (Scalar.count n : Float) :=
      sanitize_positive (b := Limit.count.bound) rfl (count_positive (by decide)) positive
    exact not_le_of_double_lt stored atMost
  · rintro rfl
    decide +kernel

end Feature

namespace Detection

open Baseline Feature Source

theorem signal_iff_code (c : Analysis.Settings Float) (s : Prepared) :
    hasSignal (extractPrepared c s) = true ↔ s.codeLines ≠ [] := by
  have measured : ("basic.loc", Scalar.count s.loc) ∈ Analysis.measurements c s :=
    List.mem_append_left _ List.mem_cons_self
  have stored := extracted_value c s measured
  have present : (extractPrepared c s).isEmpty = false := Table.not_empty_of_get stored
  rw [hasSignal, present, stored, Option.any_some, Bool.not_false, Bool.true_and,
    Bool.not_eq_true', decide_eq_false_iff_not, stored_count_zero_iff, Prepared.loc,
    List.length_eq_zero_iff]

/-- No prediction, no confidence in it, and nothing that would speak for one. -/
structure Assessment.TellsNothing (a : Assessment Float) : Prop where
  prediction : a.prediction = .uncertain
  confidence : a.confidence = 0
  score : a.score = 0.5
  oneReason : a.reasons.length = 1
  noContributions : a.contributions.isEmpty = true

theorem insufficient_tells_nothing (method : Method) : (insufficient method).TellsNothing where
  prediction := rfl
  confidence := rfl
  score := rfl
  oneReason := rfl
  noContributions := rfl

/-- Whatever is measured and however it is scored, the answer is the one for too little signal
exactly if there is no line of code, that is, if all that stands outside of comments is blank. -/
theorem insufficient_iff_no_code (c : Analysis.Settings Float) (d : Settings Float)
    (strategy : Option Strategy) (profile : Option (Profile Float)) (text filename : String) :
    let a := detect (d.withStrategy strategy) (extract c text filename) profile
    let codeLines := (prepare text filename).codeLines
    (a.TellsNothing ↔ codeLines = []) ∧
      (codeLines = [] → a = insufficient ((strategy.getD d.strategy).resolve profile)) ∧
      (codeLines = [] ↔ ∀ ch ∈ codeOf text.toList, Text.isBlank ch = true) ∧
      (codeLines = [] ↔ ∃ segments, Segmentation segments ∧
        textOf segments = Text.withoutCarriageReturns text.toList ∧
        ∀ segment ∈ segments, segment.Silent) := by
  intro a codeLines
  have assembled : a = if hasSignal (extract c text filename) then _
      else insufficient ((strategy.getD d.strategy).resolve profile) :=
    detect_assembles (d.withStrategy strategy) (extract c text filename) profile
  have signal : hasSignal (extract c text filename) = true ↔ codeLines ≠ [] :=
    signal_iff_code c (prepare text filename)
  have silent : codeLines = [] → a = insufficient ((strategy.getD d.strategy).resolve profile) := by
    intro none
    rw [assembled, if_neg fun some => signal.mp some none]
  have contributes : codeLines ≠ [] → a.contributions.isEmpty = false := by
    intro some
    rw [assembled, if_pos (signal.mpr some)]
    exact assembled_contributes (terms_nonempty _ _ _ _) _ _ _
  refine ⟨⟨?_, ?_⟩, silent, no_code_iff_blank text filename, no_code_iff_silent text filename⟩
  · intro nothing
    by_contra some
    have none := nothing.noContributions
    rw [contributes some] at none
    exact absurd none (by decide)
  · intro none
    rw [silent none]
    exact insufficient_tells_nothing _

end Detection

end Authorship
