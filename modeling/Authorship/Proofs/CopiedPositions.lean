import Authorship.Proofs.CopiedBlocks
import Mathlib.Data.Finset.Lattice.Fold
import Mathlib.Order.Interval.Finset.Nat
import Mathlib.Order.Lattice.Nat

/-
The two counts of copied lines, told by the positions that they count. The exact one is the most
positions of any run with a later copy, found by comparing all runs with each other; the estimate is
the positions inside repeated windows, and holds all the others do, runs of one or two lines apart.
-/
namespace Authorship.Analysis

/-- A run of lines is there twice: where it starts first, where it starts again, and its length. -/
structure CopyIn (ids : List Nat) (start again length : Nat) : Prop where
  later : start < again
  nonempty : 1 ≤ length
  inside : again + length ≤ ids.length
  same : (ids.drop start).take length = (ids.drop again).take length

theorem copy_in_iff (ids : List Nat) (start again length : Nat) :
    CopyIn ids start again length ↔ start < again ∧ 1 ≤ length ∧ again + length ≤ ids.length ∧
      (ids.drop start).take length = (ids.drop again).take length :=
  ⟨fun ⟨later, nonempty, inside, same⟩ => ⟨later, nonempty, inside, same⟩,
    fun ⟨later, nonempty, inside, same⟩ => ⟨later, nonempty, inside, same⟩⟩

instance (ids : List Nat) (start again length : Nat) :
    Decidable (CopyIn ids start again length) :=
  decidable_of_iff _ (copy_in_iff ids start again length).symm

def copyPositions (start again length : Nat) : Finset Nat :=
  Finset.Ico start (start + length) ∪ Finset.Ico again (again + length)

def copies (ids : List Nat) : Finset (Nat × Nat × Nat) :=
  (Finset.range ids.length ×ˢ Finset.range ids.length ×ˢ Finset.range (ids.length + 1)).filter
    fun copy => CopyIn ids copy.1 copy.2.1 copy.2.2

variable {ids : List Nat} {start again length : Nat}

theorem mem_copies : (start, again, length) ∈ copies ids ↔ CopyIn ids start again length := by
  simp only [copies, Finset.mem_filter, Finset.mem_product, Finset.mem_range]
  refine ⟨fun ⟨_, copy⟩ => copy, fun copy => ⟨?_, copy⟩⟩
  obtain ⟨later, nonempty, inside, _⟩ := copy
  omega

/-- The two overlap when the run is longer than the distance. -/
theorem copy_positions_card (later : start < again) :
    (copyPositions start again length).card = blockCoverage length (again - start) := by
  by_cases apart : start + length ≤ again
  · have disjoint : Disjoint (Finset.Ico start (start + length))
        (Finset.Ico again (again + length)) := by
      rw [Finset.disjoint_left]
      intro place first second
      rw [Finset.mem_Ico] at first second
      omega
    rw [copyPositions, Finset.card_union_of_disjoint disjoint, Nat.card_Ico, Nat.card_Ico,
      blockCoverage]
    omega
  · have whole : copyPositions start again length = Finset.Ico start (again + length) := by
      ext place
      simp only [copyPositions, Finset.mem_union, Finset.mem_Ico]
      omega
    rw [whole, Nat.card_Ico, blockCoverage]
    omega

theorem CopyIn.agree (copy : CopyIn ids start again length) :
    Agree (ids.drop start) (ids.drop again) length := by
  obtain ⟨later, _, inside, same⟩ := copy
  refine ⟨?_, ?_, same⟩
  · rw [List.length_drop]
    omega
  · rw [List.length_drop]
    omega

theorem copy_of_agree (later : start < again)
    (agree : Agree (ids.drop start) (ids.drop again) (length + 1)) :
    CopyIn ids start again (length + 1) := by
  obtain ⟨_, inside, same⟩ := agree
  rw [List.length_drop] at inside
  exact ⟨later, Nat.succ_pos length, by omega, same⟩

/-- The walk along the diagonals finds the most positions of a run and its copy, none if there is
no run that is there again. -/
theorem longest_block_is_largest_copy (ids : List Nat) :
    longestBlockCoverage ids =
        (copies ids).sup (fun copy => (copyPositions copy.1 copy.2.1 copy.2.2).card) ∧
      longestBlockCoverage ids ≤ ids.length := by
  refine ⟨Nat.le_antisymm ?_ (Finset.sup_le ?_), longest_within ids⟩
  · rcases longest_attained ids with none | ⟨start, again, length, later, agree, value⟩
    · rw [none]
      exact Nat.zero_le _
    · have found : (start, again, length + 1) ∈ copies ids :=
        mem_copies.mpr (copy_of_agree later agree)
      rw [value, ← copy_positions_card later]
      exact Finset.le_sup (f := fun copy => (copyPositions copy.1 copy.2.1 copy.2.2).card) found
  · rintro ⟨start, again, length⟩ found
    have copy := mem_copies.mp found
    rw [copy_positions_card copy.later]
    exact longest_covers copy.later copy.agree

def recurringStarts (ids : List Nat) : Finset Nat :=
  (Finset.range (ids.length - 2)).filter fun start =>
    ∃ other < ids.length - 2, other ≠ start ∧
      (ids.drop other).take 3 = (ids.drop start).take 3

def windowPositions (ids : List Nat) : Finset Nat :=
  (recurringStarts ids).biUnion fun start => Finset.Ico start (start + 3)

theorem take_window {xs : List Nat} {start : Nat} (inside : start + 2 < xs.length) :
    (xs.drop start).take 3 = [xs[start], xs[start + 1], xs[start + 2]] := by
  rw [List.drop_eq_getElem_cons (by omega), List.drop_eq_getElem_cons (i := start + 1) (by omega),
    List.drop_eq_getElem_cons (i := start + 1 + 1) inside]
  rfl

theorem window_of_take {a b c : Nat} (inside : start + 2 < ids.length) :
    (windows ids)[start]? = some (a, b, c) ↔ (ids.drop start).take 3 = [a, b, c] := by
  rw [window_at, take_window inside, List.getElem?_eq_getElem (by omega),
    List.getElem?_eq_getElem (by omega), List.getElem?_eq_getElem inside]
  simp

theorem windows_inside {w : Nat × Nat × Nat} (here : (windows ids)[start]? = some w) :
    start + 2 < ids.length := by
  have inside := (List.getElem?_eq_some_iff.mp here).1
  rw [windows_length] at inside
  omega

theorem mem_recurring_starts : start ∈ recurringStarts ids ↔ RepeatedAt ids start := by
  simp only [recurringStarts, Finset.mem_filter, Finset.mem_range]
  constructor
  · rintro ⟨here, other, there, different, same⟩
    have inside : start + 2 < ids.length := by omega
    have inside' : other + 2 < ids.length := by omega
    have window := take_window inside
    exact ⟨_, (window_of_take inside).mpr window, other, different,
      (window_of_take inside').mpr (same.trans window)⟩
  · rintro ⟨⟨a, b, c⟩, here, other, different, there⟩
    have inside := windows_inside here
    have inside' := windows_inside there
    refine ⟨by omega, other, by omega, different, ?_⟩
    rw [(window_of_take inside).mp here, (window_of_take inside').mp there]

theorem mem_window_positions {place : Nat} : place ∈ windowPositions ids ↔
    ∃ start, RepeatedAt ids start ∧ start ≤ place ∧ place < start + 3 := by
  simp [windowPositions, mem_recurring_starts]

theorem positions_counted {positions : Finset Nat} {n : Nat}
    (inside : ∀ place ∈ positions, place < n) :
    (List.range n).countP (· ∈ positions) = positions.card :=
  members_counted positions List.nodup_range fun place member =>
    List.mem_range.mpr (inside place member)

theorem window_positions_inside : ∀ place ∈ windowPositions ids, place < ids.length := by
  intro place member
  obtain ⟨start, ⟨w, here, _⟩, _, after⟩ := mem_window_positions.mp member
  have inside := windows_inside here
  omega

theorem window_coverage_card (ids : List Nat) :
    windowCoverage ids = (windowPositions ids).card := by
  have reached (place : Nat) :
      Reached 0 (repeatedStarts ids) place ↔ place ∈ windowPositions ids := by
    rw [mem_window_positions, Reached]
    constructor
    · rintro (none | ⟨start, before, after, here⟩)
      · omega
      · exact ⟨start, (repeated_start_iff ids start).mp here, by omega, after⟩
    · rintro ⟨start, repeats, before, after⟩
      exact Or.inr ⟨start, by omega, after, (repeated_start_iff ids start).mpr repeats⟩
  rw [window_coverage_eq, ← positions_counted window_positions_inside]
  simp only [reached]

theorem CopyIn.window_repeats (copy : CopyIn ids start again length) {offset : Nat}
    (inside : offset + 3 ≤ length) :
    RepeatedAt ids (start + offset) ∧ RepeatedAt ids (again + offset) := by
  obtain ⟨later, _, within, same⟩ := copy
  have window : (ids.drop (start + offset)).take 3 = (ids.drop (again + offset)).take 3 := by
    have short : min 3 (length - offset) = 3 := by omega
    have parts := congrArg (fun run => (run.drop offset).take 3) same
    simpa only [List.drop_take, List.drop_drop, List.take_take, short] using parts
  have first : start + offset ∈ recurringStarts ids ↔ _ := mem_recurring_starts
  have second : again + offset ∈ recurringStarts ids ↔ _ := mem_recurring_starts
  simp only [recurringStarts, Finset.mem_filter, Finset.mem_range] at first second
  exact ⟨first.mp ⟨by omega, again + offset, by omega, by omega, window.symm⟩,
    second.mp ⟨by omega, start + offset, by omega, by omega, window⟩⟩

theorem CopyIn.inside_windows (copy : CopyIn ids start again length) (long : 3 ≤ length) :
    copyPositions start again length ⊆ windowPositions ids := by
  intro place inside
  rw [copyPositions, Finset.mem_union, Finset.mem_Ico, Finset.mem_Ico] at inside
  rw [mem_window_positions]
  -- The last window of a run goes as far as the run does.
  rcases inside with ⟨from_start, before_end⟩ | ⟨from_start, before_end⟩
  · have offset : min (place - start) (length - 3) + 3 ≤ length := by omega
    exact ⟨_, (copy.window_repeats offset).1, by omega, by omega⟩
  · have offset : min (place - again) (length - 3) + 3 ≤ length := by omega
    exact ⟨_, (copy.window_repeats offset).2, by omega, by omega⟩

theorem CopyIn.card_le (copy : CopyIn ids start again length) :
    (copyPositions start again length).card ≤ max 4 (windowCoverage ids) := by
  by_cases long : 3 ≤ length
  · rw [window_coverage_card]
    exact (Finset.card_le_card (copy.inside_windows long)).trans (Nat.le_max_right _ _)
  · rw [copy_positions_card copy.later, blockCoverage]
    omega

/-- The estimate counts the positions inside repeated windows. A run long enough to hold a window is
inside such windows with its copy, so that the exact count is more than the estimate only for runs
of one or two lines. -/
theorem estimate_counts_window_positions (ids : List Nat) :
    windowCoverage ids = (windowPositions ids).card ∧
      longestBlockCoverage ids ≤ max 4 (windowCoverage ids) ∧
      max 4 (windowCoverage ids) ≤ max 4 ids.length := by
  refine ⟨window_coverage_card ids, ?_, max_le_max_left 4 (window_coverage_within ids)⟩
  rw [(longest_block_is_largest_copy ids).1]
  refine Finset.sup_le ?_
  rintro ⟨start, again, length⟩ found
  exact (mem_copies.mp found).card_le

/- Either way of counting copied lines. -/

/-- The positions of lines that are copied: of a largest run and its copy, or inside repeated
windows. -/
inductive Copied (scanLimit : Nat) (ids : List Nat) : Finset Nat → Prop where
  | nowhere (none : copies ids = ∅) : Copied scanLimit ids ∅
  | run {start again length : Nat} (short : ids.length ≤ scanLimit)
      (copy : CopyIn ids start again length)
      (largest : ∀ other ∈ copies ids, (copyPositions other.1 other.2.1 other.2.2).card ≤
        (copyPositions start again length).card) :
      Copied scanLimit ids (copyPositions start again length)
  | windows (long : scanLimit < ids.length) : Copied scanLimit ids (windowPositions ids)

theorem copied_inside {scanLimit : Nat} {positions : Finset Nat}
    (copied : Copied scanLimit ids positions) : ∀ place ∈ positions, place < ids.length := by
  cases copied with
  | nowhere none => simp
  | windows long => exact window_positions_inside
  | run short copy =>
    intro place member
    have later := copy.later
    have inside := copy.inside
    rw [copyPositions, Finset.mem_union, Finset.mem_Ico, Finset.mem_Ico] at member
    omega

theorem copied_positions (scanLimit : Nat) (ids : List Nat) :
    ∃ positions, Copied scanLimit ids positions ∧ positions.card = copiedLines scanLimit ids := by
  rw [copiedLines]
  split
  · rename_i long
    exact ⟨_, .windows long, (window_coverage_card ids).symm⟩
  · rename_i short
    rcases longest_attained ids with none | ⟨start, again, length, later, agree, value⟩
    · refine ⟨∅, .nowhere (Finset.eq_empty_of_forall_notMem ?_), none.symm⟩
      rintro ⟨start, again, length⟩ found
      have copy := mem_copies.mp found
      have covered := longest_covers copy.later copy.agree
      have nonempty := copy.nonempty
      rw [none, blockCoverage] at covered
      omega
    · have covered := (copy_positions_card later).trans value.symm
      refine ⟨_, .run (not_lt.mp short) (copy_of_agree later agree) ?_, covered⟩
      rintro ⟨first, second, other⟩ found
      have copy := mem_copies.mp found
      rw [covered, copy_positions_card copy.later]
      exact longest_covers copy.later copy.agree

end Authorship.Analysis
