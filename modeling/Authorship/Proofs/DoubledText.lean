import Authorship.Proofs.CodeLines
import Authorship.Proofs.CopiedBlocks
import Authorship.Proofs.ExactArithmetic
import Authorship.Proofs.ExtractedVector

/-
A text written twice. Its lines of code are those of the text, twice over, and neither the share of
repeated lines nor that of copied ones shrinks, whichever of the two counts of copied lines is made
for the text and for its double.
-/
namespace Authorship

open Analysis Feature Source

def extractExactly (f : Scalar.RootsAndLogs) (c : Settings Rat) (text filename : String) :
    FeatureVector Rat :=
  @extract Rat (Scalar.exactly f) c text filename

theorem sanitize_mono (b : Bound Rat) {x y : Rat} (le : x ≤ y) : b.sanitize x ≤ b.sanitize y :=
  Scalar.clamp_mono b.low b.high le

theorem sanitize_named_mono (name : String) {x y : Rat} (le : x ≤ y) :
    sanitizeNamed name x ≤ sanitizeNamed name y := by
  rw [sanitizeNamed, sanitizeNamed]
  cases lookup? name with
  | none => exact le
  | some spec => exact sanitize_mono _ le

theorem doubled_code_lines {text : String}
    (closed : endsInBlock false (scan .code (Text.withoutCarriageReturns text.toList)) = false)
    (filename filename' : String) : (prepare (text ++ "\n" ++ text) filename').codeLines =
      (prepare text filename).codeLines ++ (prepare text filename).codeLines := by
  have joined : (text ++ "\n" ++ text).toList = text.toList ++ '\n' :: text.toList := by
    rw [String.toList_append, String.toList_append, List.append_assoc]
    rfl
  rw [code_lines_eq, code_lines_eq, joined, lines_of_joined text.toList closed]

def lineIds (s : Prepared) : List Nat := intern (s.codeLines.map Text.trim)

/- Both shares are a count over the lines, and what holds of the counts is all that is used. -/
theorem share_of_doubled {once twice : Prepared} {counted : List Nat → Nat}
    (grows : ∀ ids, 2 * counted ids ≤ counted (ids ++ ids))
    (doubled : twice.codeLines = once.codeLines ++ once.codeLines) :
    (Scalar.perCount (counted (lineIds once)) once.loc : Rat) ≤
      Scalar.perCount (counted (lineIds twice)) twice.loc := by
  have ids : lineIds twice = lineIds once ++ lineIds once := by
    rw [lineIds, doubled, List.map_append, intern_doubled]
    rfl
  have whole : twice.loc = 2 * once.loc := by
    rw [Prepared.loc, Prepared.loc, doubled, List.length_append, Nat.two_mul]
  rw [ids, whole]
  exact Scalar.share_doubled once.loc (grows (lineIds once))

theorem doubled_measurements (limit : Nat) {once twice : Prepared}
    (doubled : twice.codeLines = once.codeLines ++ once.codeLines) :
    ∀ name ∈ ["duplicate_line_ratio", "copy_paste_score"], ∃ x y : Rat,
      (name, x) ∈ redundancyMeasurements limit once ∧
        (name, y) ∈ redundancyMeasurements limit twice ∧ x ≤ y := by
  intro name asked
  rcases List.mem_pair.mp asked with rfl | rfl
  · have le := share_of_doubled duplicates_doubled doubled
    exact ⟨_, _, by simp [redundancyMeasurements, lineIds],
      by simp [redundancyMeasurements, lineIds], le⟩
  · have le := share_of_doubled (copied_doubled limit) doubled
    exact ⟨_, _, by simp [redundancyMeasurements, lineIds],
      by simp [redundancyMeasurements, lineIds], le⟩

theorem extracted_redundancy (f : Scalar.RootsAndLogs) (c : Settings Rat)
    (enabled : Family.redundancy ∉ c.disabled) (text filename : String) {name : String} {x : Rat}
    (measured : (name, x) ∈ redundancyMeasurements c.scanLimit (prepare text filename)) :
    (extractExactly f c text filename).get? (joinName "redundancy" name) =
      some (sanitizeNamed (joinName "redundancy" name) x) := by
  have inFamily : (name, x) ∈
      @Family.measure Rat (Scalar.exactly f) c (prepare text filename) .redundancy := measured
  exact @extracted_in_family Rat (Scalar.exactly f) c text filename .redundancy enabled name x
    inFamily

/-- Writing a text twice, on lines of its own, lowers neither share, unless the first copy ends
inside a block comment, which would swallow the second one. -/
theorem doubling_keeps_redundancy (f : Scalar.RootsAndLogs) (c : Settings Rat)
    (enabled : Family.redundancy ∉ c.disabled) (text filename filename' : String)
    (closed : endsInBlock false (scan .code (Text.withoutCarriageReturns text.toList)) = false) :
    ∀ name ∈ ["redundancy.duplicate_line_ratio", "redundancy.copy_paste_score"], ∃ once twice,
      (extractExactly f c text filename).get? name = some once ∧
        (extractExactly f c (text ++ "\n" ++ text) filename').get? name = some twice ∧
          once ≤ twice := by
  intro name asked
  obtain ⟨short, asked', rfl⟩ : ∃ short ∈ ["duplicate_line_ratio", "copy_paste_score"],
      joinName "redundancy" short = name := by
    rcases List.mem_pair.mp asked with rfl | rfl
    · exact ⟨"duplicate_line_ratio", List.mem_cons_self, by decide⟩
    · exact ⟨"copy_paste_score", List.mem_cons_of_mem _ List.mem_cons_self, by decide⟩
  have doubled := doubled_code_lines closed filename filename'
  obtain ⟨x, y, first, second, le⟩ := doubled_measurements c.scanLimit doubled short asked'
  refine ⟨sanitizeNamed (joinName "redundancy" short) x,
    sanitizeNamed (joinName "redundancy" short) y, ?_, ?_, ?_⟩
  · exact extracted_redundancy f c enabled text filename first
  · exact extracted_redundancy f c enabled (text ++ "\n" ++ text) filename' second
  · exact sanitize_named_mono _ le

def threeLines : String := "a\nb\nc"

def fourLineScans : Settings Rat := { Settings.default with scanLimit := 4 }

theorem three_lines_doubled :
    endsInBlock false (scan .code (Text.withoutCarriageReturns threeLines.toList)) = false ∧
      ∀ name ∈ ["redundancy.duplicate_line_ratio", "redundancy.copy_paste_score"], ∃ once twice,
        (extractExactly .rough fourLineScans threeLines "").get? name = some once ∧
          (extractExactly .rough fourLineScans (threeLines ++ "\n" ++ threeLines) "").get? name =
            some twice ∧ once ≤ twice := by
  have closed : endsInBlock false
      (scan .code (Text.withoutCarriageReturns threeLines.toList)) = false := by decide
  exact ⟨closed, doubling_keeps_redundancy .rough fourLineScans (by decide) threeLines "" "" closed⟩

end Authorship
