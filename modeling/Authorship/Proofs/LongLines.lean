import Authorship.Proofs.ExactArithmetic
import Authorship.Proofs.ExtractedVector

/-
Long lines, blank or not. All lines are asked for their length, but their number is divided by that
of the lines that are not blank. So a long blank line can take the quotient past the share of the
others that are long, and past one, where it is stored as one.
-/
namespace Authorship

open Analysis Feature Scalar Source

namespace Analysis

def isLong (line : List Char) : Bool := longLine < line.length

def filledLines (s : Prepared) : List (List Char) := s.rawLines.filter (!Text.isBlankLine ·)

def blankLines (s : Prepared) : List (List Char) := s.rawLines.filter Text.isBlankLine

theorem nonblank_lines_filled (s : Prepared) :
    (styleIssues s).spacing.nonblankLines = (filledLines s).length := by
  simp only [styleIssues, spacingIssues, List.partition_eq_filter_filter]
  rfl

theorem long_lines_in_parts (s : Prepared) : (styleIssues s).formatting.longLines =
    (filledLines s).countP isLong + (blankLines s).countP isLong := by
  have parts := List.countP_eq_countP_filter_add s.rawLines isLong Text.isBlankLine
  rw [Nat.add_comm] at parts
  exact parts

theorem long_and_short (lines : List (List Char)) :
    lines.length = lines.countP isLong + lines.countP (!isLong ·) := by
  simpa using lines.length_eq_countP_add_countP isLong

theorem none_long {lines : List (List Char)} :
    lines.countP isLong = 0 ↔ ∀ line ∈ lines, line.length ≤ longLine := by
  simp [List.countP_eq_zero, isLong]

theorem all_long {lines : List (List Char)} :
    lines.countP isLong = lines.length ↔ ∀ line ∈ lines, longLine < line.length := by
  simp [List.countP_eq_length, isLong]

/- A count that others are added to, as a share that is cut off at one. -/

theorem cut_share_grows {part whole : Nat} (others : Nat) (within : part ≤ whole) :
    (perCount part whole : Rat) ≤ min 1 (perCount (part + others) whole) := by
  have positive : (0 : Rat) < (max 1 whole : Nat) := by exact_mod_cast (by omega)
  rw [exact_per_count, exact_per_count]
  refine le_min ((div_le_one positive).mpr ?_) (div_le_div_of_nonneg_right ?_ positive.le)
  · exact_mod_cast within.trans (Nat.le_max_right 1 whole)
  · exact_mod_cast Nat.le_add_right part others

theorem cut_share_eq_iff {part others whole : Nat} (within : part ≤ whole) :
    (min 1 (perCount (part + others) whole) : Rat) = perCount part whole ↔
      others = 0 ∨ (0 < whole ∧ part = whole) := by
  have positive : (0 : Rat) < (max 1 whole : Nat) := by exact_mod_cast (by omega)
  constructor
  · intro same
    rcases Nat.eq_zero_or_pos others with none | some
    · exact Or.inl none
    have more : (perCount part whole : Rat) < perCount (part + others) whole := by
      rw [exact_per_count, exact_per_count, div_lt_div_iff_of_pos_right positive]
      exact_mod_cast Nat.lt_add_of_pos_right some
    have cut : (1 : Rat) = perCount part whole := by
      rcases min_choice (1 : Rat) (perCount (part + others) whole) with left | right
      · exact left.symm.trans same
      · exact absurd (right.symm.trans same).symm more.ne
    rw [exact_per_count, eq_comm, div_eq_one_iff_eq positive.ne'] at cut
    have whole' : part = max 1 whole := by exact_mod_cast cut
    omega
  · rintro (rfl | ⟨some, rfl⟩)
    · refine min_eq_right ?_
      rw [Nat.add_zero, exact_per_count, div_le_one positive]
      exact_mod_cast within.trans (Nat.le_max_right 1 whole)
    · have one : (perCount part part : Rat) = 1 := by
        rw [exact_per_count, Nat.max_eq_right some]
        exact div_self (by exact_mod_cast (Nat.ne_of_gt some))
      rw [one]
      exact min_eq_left (one ▸ (cut_share_grows others (Nat.le_refl part)).trans (min_le_right _ _))

theorem sanitize_quotient (part whole : Nat) :
    sanitizeNamed "human_style.long_line_ratio" (perCount part whole : Rat) =
      min 1 (perCount part whole) := by
  have known : lookup? "human_style.long_line_ratio" =
      some ⟨"human_style.long_line_ratio", .share, "Lines over 120 characters"⟩ := by decide +kernel
  have nonneg : (0 : Rat) ≤ perCount part whole := by
    rw [exact_per_count]
    positivity
  simp only [sanitizeNamed, known]
  calc Limit.share.bound.sanitize (perCount part whole : Rat)
      = clamp 0 1 (perCount part whole) := rfl
    _ = min 1 (perCount part whole) := by rw [exact_clamp, max_eq_right nonneg]

end Analysis

/-- The long lines that are counted are those among the filled lines and those among the blank
ones. They are no more than the filled lines when no more blank lines are long than filled ones are
short. The stored quotient is at least the share of the filled lines that are long, and it is that
share when no blank line is long or when there are filled lines and all of them are. -/
theorem long_lines_are_filled_or_blank (f : RootsAndLogs) (c : Settings Rat)
    (enabled : Family.humanStyle ∉ c.disabled) (text filename : String) :
    let s := prepare text filename
    let longLines := (styleIssues s).formatting.longLines
    let nonblankLines := (styleIssues s).spacing.nonblankLines
    let share : Rat := perCount ((filledLines s).countP isLong) nonblankLines
    nonblankLines = (filledLines s).length ∧
      longLines = (filledLines s).countP isLong + (blankLines s).countP isLong ∧
      (longLines ≤ nonblankLines ↔
        (blankLines s).countP isLong ≤ (filledLines s).countP (!isLong ·)) ∧
      ∃ stored : Rat,
        (@extract Rat (exactly f) c text filename).get? "human_style.long_line_ratio" =
          some stored ∧
        stored = min 1 (perCount longLines nonblankLines) ∧ share ≤ stored ∧
        (stored = share ↔ (∀ line ∈ blankLines s, line.length ≤ longLine) ∨
          (filledLines s ≠ [] ∧ ∀ line ∈ filledLines s, longLine < line.length)) := by
  intro s longLines nonblankLines share
  have lines : nonblankLines = (filledLines s).length := nonblank_lines_filled s
  have parts : longLines = (filledLines s).countP isLong + (blankLines s).countP isLong :=
    long_lines_in_parts s
  have kinds := long_and_short (filledLines s)
  have within : (filledLines s).countP isLong ≤ nonblankLines := lines ▸ List.countP_le_length
  have measured : ("long_line_ratio", perCount longLines nonblankLines) ∈
      @Family.measure Rat (exactly f) c s .humanStyle := by
    simp [Family.measure, styleMeasurements, longLines, nonblankLines]
  have stored : (@extract Rat (exactly f) c text filename).get? "human_style.long_line_ratio" =
      some (min 1 (perCount longLines nonblankLines)) := by
    rw [← sanitize_quotient]
    exact @extracted_in_family Rat (exactly f) c text filename .humanStyle enabled _ _ measured
  refine ⟨lines, parts, ⟨fun le => by omega, fun le => by omega⟩, _, stored, rfl, ?_, ?_⟩
  · rw [parts]
    exact cut_share_grows _ within
  · rw [parts, cut_share_eq_iff within, none_long, lines, List.length_pos_iff, all_long]

def wideBlank : String := String.ofList (List.replicate 121 ' ')

theorem wide_blank_stored_as_one :
    Family.humanStyle ∉ (Settings.default : Settings Rat).disabled ∧ ∃ stored : Rat,
      (@extract Rat (exactly .rough) .default wideBlank "a.c").get? "human_style.long_line_ratio" =
        some stored ∧ stored = 1 := by
  have enabled : Family.humanStyle ∉ (Settings.default : Settings Rat).disabled := List.not_mem_nil
  obtain ⟨-, -, -, stored, found, quotient, -, -⟩ :=
    long_lines_are_filled_or_blank .rough .default enabled wideBlank "a.c"
  have counts : (styleIssues (prepare wideBlank "a.c")).formatting.longLines = 1 ∧
      (styleIssues (prepare wideBlank "a.c")).spacing.nonblankLines = 0 := by decide +kernel
  rw [counts.1, counts.2] at quotient
  exact ⟨enabled, stored, found, quotient.trans (by decide +kernel)⟩

/-- A long line in a text without a line to divide by. -/
theorem long_line_without_filled_ones :
    let issues := styleIssues (prepare wideBlank "a.c")
    issues.spacing.nonblankLines = 0 ∧ issues.formatting.longLines = 1 ∧
      ¬ issues.formatting.longLines ≤ issues.spacing.nonblankLines := by
  decide +kernel

end Authorship
