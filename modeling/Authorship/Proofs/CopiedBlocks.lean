import Authorship.Analysis.Redundancy
import Authorship.Proofs.Totals
import Mathlib.Data.List.NodupEquivFin
import Mathlib.Tactic.IntervalCases
import Mathlib.Tactic.Tauto

/-
What the counts of repeated lines count. A line that occurs again is an extra occurrence, a copied
block is a run of lines that agrees with a later one, and the estimate for long files is the number
of lines inside a repeated window.
-/
namespace Authorship.Analysis

section

variable {β : Type} [DecidableEq β]

theorem extra_of_cons (x : β) (xs : List β) :
    extraOccurrences (x :: xs) = xs.count x + extraOccurrences (xs.filter (!· == x)) := by
  have others : (xs.filter (!· == x)).eraseDups.map (fun y => (x :: xs).count y - 1) =
      (xs.filter (!· == x)).eraseDups.map fun y => (xs.filter (!· == x)).count y - 1 := by
    refine List.map_congr_left fun y member => ?_
    have kept := (List.mem_filter.mp (List.mem_eraseDups.mp member)).2
    have other : x ≠ y := by
      rintro rfl
      simp at kept
    have same : (xs.filter (!· == x)).count y = xs.count y := List.count_filter kept
    rw [List.count_cons_of_ne other, same]
  rw [extraOccurrences, List.eraseDups_cons, List.map_cons, sum_of_eq, List.sum_cons, others,
    List.count_cons_self, Nat.add_sub_cancel]
  rfl

/-- Every element is the first one of its value or an extra occurrence. -/
theorem extra_and_distinct (xs : List β) :
    extraOccurrences xs + xs.eraseDups.length = xs.length := by
  induction h : xs.length using Nat.strongRecOn generalizing xs with
  | ind n ih =>
    cases xs with
    | nil => exact h
    | cons x xs =>
      have split : xs.count x + (xs.filter (!· == x)).length = xs.length := by
        rw [List.count, List.countP_eq_length_filter]
        exact (List.length_eq_length_filter_add (· == x)).symm
      have less : (xs.filter (!· == x)).length < n := by
        rw [List.length_cons] at h
        omega
      have rest := ih _ less _ rfl
      rw [List.length_cons] at h
      rw [extra_of_cons, List.eraseDups_cons, List.length_cons]
      omega

theorem distinct_doubled (xs : List β) : (xs ++ xs).eraseDups = xs.eraseDups := by
  have none : xs.removeAll xs = [] := by
    rw [List.removeAll, List.filter_eq_nil_iff]
    intro x member
    simpa using member
  rw [List.eraseDups_append, none, List.eraseDups_nil, List.append_nil]

end

theorem intern_doubled (lines : List (List Char)) :
    intern (lines ++ lines) = intern lines ++ intern lines := by
  have same : ∀ line ∈ lines, (lines ++ lines).idxOf line = lines.idxOf line :=
    fun line member => List.idxOf_append_of_mem member
  rw [intern, List.map_append, intern, List.map_congr_left same]

theorem duplicates_doubled (ids : List Nat) :
    2 * duplicateLines ids ≤ duplicateLines (ids ++ ids) := by
  have once := extra_and_distinct ids
  have twice := extra_and_distinct (ids ++ ids)
  rw [distinct_doubled, List.length_append] at twice
  simp only [duplicateLines]
  omega

def Agree (as bs : List Nat) (length : Nat) : Prop :=
  length ≤ as.length ∧ length ≤ bs.length ∧ as.take length = bs.take length

theorem agree_nothing (as bs : List Nat) : Agree as bs 0 :=
  ⟨Nat.zero_le _, Nat.zero_le _, rfl⟩

theorem agree_cons_iff (a b : Nat) (as bs : List Nat) (length : Nat) :
    Agree (a :: as) (b :: bs) (length + 1) ↔ a = b ∧ Agree as bs length := by
  simp only [Agree, List.length_cons, Nat.add_le_add_iff_right, List.take_succ_cons,
    List.cons.injEq]
  tauto

/-- What a run and its copy cover together, from the length of the run and how far apart they
are. -/
def blockCoverage (length distance : Nat) : Nat := length + min length distance

theorem coverage_equal (distance run best a : Nat) (as bs : List Nat) :
    coverageAt distance run best (a :: as) (a :: bs) =
      coverageAt distance (run + 1) (max best (blockCoverage (run + 1) distance)) as bs := by
  rw [coverageAt, if_pos rfl]
  rfl

theorem coverage_different {a b : Nat} (distance run best : Nat) (as bs : List Nat)
    (different : a ≠ b) :
    coverageAt distance run best (a :: as) (b :: bs) = coverageAt distance 0 best as bs := by
  rw [coverageAt, if_neg different]

theorem coverage_keeps (distance run best : Nat) (as bs : List Nat) :
    best ≤ coverageAt distance run best as bs := by
  fun_induction coverageAt distance run best as bs with
  | case1 run best a as bs ih => exact Nat.le_trans (Nat.le_max_left _ _) ih
  | case2 run best a as b bs different ih => exact ih
  | case3 => exact Nat.le_refl _

/- The run so far is assumed to be counted, as it is wherever a comparison goes on. -/

theorem coverage_of_first {distance run best length : Nat} {as bs : List Nat}
    (agree : Agree as bs length) (counted : blockCoverage run distance ≤ best) :
    blockCoverage (run + length) distance ≤ coverageAt distance run best as bs := by
  induction length generalizing run best as bs with
  | zero => exact Nat.le_trans counted (coverage_keeps distance run best as bs)
  | succ length ih =>
    match as, bs, agree with
    | a :: as, b :: bs, agree =>
      obtain ⟨rfl, more⟩ := (agree_cons_iff a b as bs length).mp agree
      rw [coverage_equal, Nat.add_comm length, ← Nat.add_assoc]
      exact ih more (Nat.le_max_right _ _)
    | [], _, ⟨short, _, _⟩ => exact absurd short (Nat.not_succ_le_zero _)
    | _ :: _, [], ⟨_, short, _⟩ => exact absurd short (Nat.not_succ_le_zero _)

theorem coverage_of_run {distance run best length : Nat} {as bs : List Nat} (skipped : Nat)
    (agree : Agree (as.drop skipped) (bs.drop skipped) length)
    (counted : blockCoverage run distance ≤ best) :
    blockCoverage length distance ≤ coverageAt distance run best as bs := by
  induction skipped generalizing run best as bs with
  | zero =>
    have longer : blockCoverage length distance ≤ blockCoverage (run + length) distance := by
      simp only [blockCoverage]
      omega
    exact Nat.le_trans longer (coverage_of_first agree counted)
  | succ skipped ih =>
    match as, bs, agree with
    | a :: as, b :: bs, agree =>
      by_cases same : a = b
      · subst same
        rw [coverage_equal]
        exact ih agree (Nat.le_max_right _ _)
      · rw [coverage_different _ _ _ _ _ same]
        exact ih agree (by simp [blockCoverage])
    | [], _, ⟨short, _, _⟩ | _ :: _, [], ⟨_, short, _⟩ =>
      obtain rfl : length = 0 := by simpa using short
      exact Nat.le_trans (by simp [blockCoverage]) (coverage_keeps distance run best _ _)

/-- The result was there before, or it is the coverage of a run: one that goes on at the beginning,
or a later one. -/
theorem coverage_attained (distance run best : Nat) (as bs : List Nat) :
    coverageAt distance run best as bs = best ∨
      (∃ length, Agree as bs (length + 1) ∧
        coverageAt distance run best as bs = blockCoverage (run + (length + 1)) distance) ∨
      ∃ skipped length, Agree (as.drop skipped) (bs.drop skipped) (length + 1) ∧
        coverageAt distance run best as bs = blockCoverage (length + 1) distance := by
  induction as generalizing run best bs with
  | nil => exact Or.inl (by rw [coverageAt]; simp)
  | cons a as ih =>
    cases bs with
    | nil => exact Or.inl (by rw [coverageAt]; simp)
    | cons b bs =>
      by_cases same : a = b
      · subst same
        rw [coverage_equal]
        rcases ih (run + 1) (max best (blockCoverage (run + 1) distance)) bs with
          kept | ⟨length, agree, value⟩ | ⟨skipped, length, agree, value⟩
        · rcases max_choice best (blockCoverage (run + 1) distance) with before | now
          · exact Or.inl (kept.trans before)
          · exact Or.inr (Or.inl ⟨0, (agree_cons_iff ..).mpr ⟨rfl, agree_nothing as bs⟩,
              kept.trans now⟩)
        · refine Or.inr (Or.inl ⟨length + 1, (agree_cons_iff ..).mpr ⟨rfl, agree⟩, ?_⟩)
          rw [value, Nat.add_assoc, Nat.add_comm 1]
        · exact Or.inr (Or.inr ⟨skipped + 1, length, agree, value⟩)
      · rw [coverage_different _ _ _ _ _ same]
        rcases ih 0 best bs with
          kept | ⟨length, agree, value⟩ | ⟨skipped, length, agree, value⟩
        · exact Or.inl kept
        · rw [Nat.zero_add] at value
          exact Or.inr (Or.inr ⟨1, length, agree, value⟩)
        · exact Or.inr (Or.inr ⟨skipped + 1, length, agree, value⟩)

def coverageOver (ids : List Nat) (best : Nat) (distances : List Nat) : Nat :=
  distances.foldl (fun best distance => coverageAt distance 0 best ids (ids.drop distance)) best

theorem over_keeps (ids : List Nat) (best : Nat) (distances : List Nat) :
    best ≤ coverageOver ids best distances := by
  induction distances generalizing best with
  | nil => exact Nat.le_refl _
  | cons distance distances ih => exact Nat.le_trans (coverage_keeps _ _ _ _ _) (ih _)

theorem over_covers {ids distances : List Nat} {distance start length : Nat} (best : Nat)
    (compared : distance ∈ distances)
    (agree : Agree (ids.drop start) ((ids.drop distance).drop start) length) :
    blockCoverage length distance ≤ coverageOver ids best distances := by
  induction distances generalizing best with
  | nil => exact absurd compared List.not_mem_nil
  | cons first distances ih =>
    rcases List.mem_cons.mp compared with rfl | later
    · have counted : blockCoverage 0 distance ≤ best := by simp [blockCoverage]
      exact Nat.le_trans (coverage_of_run start agree counted) (over_keeps ids _ distances)
    · exact ih _ later

theorem over_attained (ids : List Nat) (best : Nat) (distances : List Nat) :
    coverageOver ids best distances = best ∨
      ∃ distance ∈ distances, ∃ start length,
        Agree (ids.drop start) ((ids.drop distance).drop start) (length + 1) ∧
          coverageOver ids best distances = blockCoverage (length + 1) distance := by
  induction distances generalizing best with
  | nil => exact Or.inl rfl
  | cons first distances ih =>
    have step : coverageOver ids best (first :: distances) =
        coverageOver ids (coverageAt first 0 best ids (ids.drop first)) distances := rfl
    rw [step]
    rcases ih (coverageAt first 0 best ids (ids.drop first)) with
      kept | ⟨distance, later, start, length, agree, value⟩
    · rw [kept]
      rcases coverage_attained first 0 best ids (ids.drop first) with
        before | ⟨length, agree, value⟩ | ⟨start, length, agree, value⟩
      · exact Or.inl before
      · rw [Nat.zero_add] at value
        exact Or.inr ⟨first, List.mem_cons_self, 0, length, agree, value⟩
      · exact Or.inr ⟨first, List.mem_cons_self, start, length, agree, value⟩
    · exact Or.inr ⟨distance, List.mem_cons_of_mem first later, start, length, agree, value⟩

theorem distances_iff (n distance : Nat) :
    distance ∈ (List.range n).drop 1 ↔ 0 < distance ∧ distance < n := by
  rw [List.range_eq_range', List.drop_range', List.mem_range'_1]
  omega

theorem longest_covers {ids : List Nat} {start copy length : Nat} (later : start < copy)
    (agree : Agree (ids.drop start) (ids.drop copy) length) :
    blockCoverage length (copy - start) ≤ longestBlockCoverage ids := by
  by_cases nothing : length = 0
  · subst nothing
    simp [blockCoverage]
  · have inside : length ≤ ids.length - copy := by
      rw [← List.length_drop]
      exact agree.2.1
    have compared : copy - start ∈ (List.range ids.length).drop 1 := by
      rw [distances_iff]
      omega
    have place : (ids.drop (copy - start)).drop start = ids.drop copy := by
      rw [List.drop_drop, Nat.sub_add_cancel (Nat.le_of_lt later)]
    exact over_covers 0 compared (place ▸ agree)

theorem longest_attained (ids : List Nat) : longestBlockCoverage ids = 0 ∨
    ∃ start copy length, start < copy ∧ Agree (ids.drop start) (ids.drop copy) (length + 1) ∧
      longestBlockCoverage ids = blockCoverage (length + 1) (copy - start) := by
  rcases over_attained ids 0 ((List.range ids.length).drop 1) with
    none | ⟨distance, compared, start, length, agree, value⟩
  · exact Or.inl none
  · have positive := ((distances_iff ids.length distance).mp compared).1
    rw [List.drop_drop] at agree
    refine Or.inr ⟨start, distance + start, length, by omega, agree, ?_⟩
    rw [Nat.add_sub_cancel]
    exact value

theorem longest_within (ids : List Nat) : longestBlockCoverage ids ≤ ids.length := by
  rcases longest_attained ids with none | ⟨start, copy, length, later, ⟨_, inside, _⟩, value⟩
  · omega
  · rw [List.length_drop] at inside
    rw [value, blockCoverage]
    omega

theorem longest_doubled (ids : List Nat) :
    2 * ids.length ≤ longestBlockCoverage (ids ++ ids) := by
  by_cases nothing : ids.length = 0
  · omega
  · have agree : Agree ((ids ++ ids).drop 0) ((ids ++ ids).drop ids.length) ids.length := by
      rw [List.drop_zero, List.drop_left]
      exact ⟨by simp, Nat.le_refl _, by simp⟩
    have covered := longest_covers (Nat.pos_of_ne_zero nothing) agree
    rw [blockCoverage] at covered
    omega

theorem windows_length {β : Type} (xs : List β) : (windows xs).length = xs.length - 2 := by
  fun_induction windows xs with
  | case1 a b c rest ih =>
    rw [List.length_cons, ih]
    simp
  | case2 xs short =>
    match xs, short with
    | [], _ | [_], _ | [_, _], _ => rfl
    | a :: b :: c :: rest, short => exact absurd rfl (short a b c rest)

theorem window_at {β : Type} (xs : List β) (start : Nat) (a b c : β) :
    (windows xs)[start]? = some (a, b, c) ↔
      xs[start]? = some a ∧ xs[start + 1]? = some b ∧ xs[start + 2]? = some c := by
  fun_induction windows xs generalizing start with
  | case1 x y z rest ih =>
    cases start with
    | zero => simp
    | succ start => simpa using ih start
  | case2 xs short =>
    refine iff_of_false (by simp) fun ⟨_, _, third⟩ => ?_
    match xs, short with
    | [], _ | [_], _ | [_, _], _ => simp at third
    | x :: y :: z :: rest, short => exact short x y z rest rfl

theorem count_again_iff {β : Type} [BEq β] [LawfulBEq β] {xs : List β} {place : Nat} {x : β}
    (here : xs[place]? = some x) :
    1 < xs.count x ↔ ∃ other, other ≠ place ∧ xs[other]? = some x := by
  have twice : List.Sublist (List.replicate 2 x) xs ↔ 1 < xs.count x :=
    List.replicate_sublist_iff
  rw [← twice, show List.replicate 2 x = [x, x] from rfl, ← List.duplicate_iff_sublist,
    List.duplicate_iff_exists_distinct_get]
  constructor
  · rintro ⟨m, n, less, first, second⟩
    by_cases same : m.val = place
    · exact ⟨n, by omega, by rw [second]; simp⟩
    · exact ⟨m, same, by rw [first]; simp⟩
  · rintro ⟨other, different, there⟩
    obtain ⟨inside, rfl⟩ := List.getElem?_eq_some_iff.mp here
    obtain ⟨inside', same⟩ := List.getElem?_eq_some_iff.mp there
    rcases Nat.lt_or_gt_of_ne different with before | after
    · exact ⟨⟨other, inside'⟩, ⟨place, inside⟩, before, same.symm, rfl⟩
    · exact ⟨⟨place, inside⟩, ⟨other, inside'⟩, after, rfl, same.symm⟩

def RepeatedAt (ids : List Nat) (start : Nat) : Prop :=
  ∃ w, (windows ids)[start]? = some w ∧ ∃ other, other ≠ start ∧ (windows ids)[other]? = some w

theorem repeated_start_iff (ids : List Nat) (start : Nat) :
    (repeatedStarts ids)[start]? = some true ↔ RepeatedAt ids start := by
  rw [repeatedStarts, List.getElem?_map, Option.map_eq_some_iff]
  refine exists_congr fun w => and_congr_right fun here => ?_
  rw [decide_eq_true_iff, count_again_iff here]

/-- The position is covered from before, or a window that a flag tells of covers it. -/
def Reached (reach : Nat) (flags : List Bool) (place : Nat) : Prop :=
  place < reach ∨ ∃ start, start < place + 1 ∧ place < start + 3 ∧ flags[start]? = some true

instance (reach : Nat) (flags : List Bool) : DecidablePred (Reached reach flags) := fun place =>
  inferInstanceAs (Decidable (place < reach ∨ ∃ start, start < place + 1 ∧ _))

theorem reached_first (reach : Nat) (flag : Bool) (flags : List Bool) :
    Reached reach (flag :: flags) 0 ↔ 0 < reach ∨ flag = true := by
  refine or_congr_right ⟨?_, fun here => ⟨0, by omega, by omega, by simp [here]⟩⟩
  rintro ⟨start, before, _, here⟩
  obtain rfl : start = 0 := by omega
  simpa using here

theorem reached_next {reach : Nat} (short : reach ≤ 2) (flag : Bool) (flags : List Bool)
    (place : Nat) : Reached reach (flag :: flags) (place + 1) ↔
      Reached (if flag then 2 else reach - 1) flags place := by
  constructor
  · rintro (covered | ⟨start, before, after, here⟩)
    · left
      split <;> omega
    · cases start with
      | zero =>
        obtain rfl : flag = true := by simpa using here
        left
        rw [if_pos rfl]
        omega
      | succ start => exact Or.inr ⟨start, by omega, by omega, by simpa using here⟩
  · rintro (covered | ⟨start, before, after, here⟩)
    · cases flag with
      | true => exact Or.inr ⟨0, by omega, by simp at covered; omega, rfl⟩
      | false =>
        left
        simp at covered
        omega
    · exact Or.inr ⟨start + 1, by omega, by omega, by simpa using here⟩

theorem reached_from_eq {reach : Nat} (short : reach ≤ 2) (flags : List Bool) :
    reachedFrom reach flags =
      (List.range (flags.length + 2)).countP (Reached reach flags ·) := by
  induction flags generalizing reach with
  | nil =>
    rw [reachedFrom]
    interval_cases reach <;> decide
  | cons flag flags ih =>
    have rest : (List.range (flags.length + 2)).countP
          (fun place => Reached reach (flag :: flags) (place + 1)) =
        reachedFrom (if flag then 2 else reach - 1) flags := by
      rw [ih (by split <;> omega)]
      simp only [reached_next short]
    rw [List.length_cons, Nat.add_right_comm, List.range_succ_eq_map, List.countP_cons,
      List.countP_map]
    simp only [Function.comp_def, Nat.succ_eq_add_one]
    rw [rest]
    simp only [decide_eq_true_iff, reached_first]
    cases flag with
    | true => simp [reachedFrom, Nat.add_comm]
    | false => simp [reachedFrom, Nat.add_comm]

theorem starts_length (ids : List Nat) : (repeatedStarts ids).length = ids.length - 2 := by
  rw [repeatedStarts, List.length_map, windows_length]

theorem no_starts {ids : List Nat} (short : ids.length < 3) : repeatedStarts ids = [] := by
  apply List.eq_nil_of_length_eq_zero
  rw [starts_length]
  omega

theorem window_coverage_short {ids : List Nat} (short : ids.length < 3) :
    windowCoverage ids = 0 := by
  rw [windowCoverage, no_starts short, reachedFrom]

theorem window_coverage_eq (ids : List Nat) : windowCoverage ids =
    (List.range ids.length).countP (Reached 0 (repeatedStarts ids) ·) := by
  by_cases long : 2 ≤ ids.length
  · rw [windowCoverage, reached_from_eq (Nat.zero_le _), starts_length, Nat.sub_add_cancel long]
  · have short : ids.length < 3 := by omega
    rw [window_coverage_short short, no_starts short]
    symm
    rw [List.countP_eq_zero]
    simp [Reached]

theorem window_coverage_within (ids : List Nat) : windowCoverage ids ≤ ids.length := by
  rw [window_coverage_eq]
  exact Nat.le_trans List.countP_le_length (Nat.le_of_eq List.length_range)

theorem doubled_repeats {ids : List Nat} {start : Nat} (inside : start + 2 < ids.length) :
    RepeatedAt (ids ++ ids) start ∧ RepeatedAt (ids ++ ids) (ids.length + start) := by
  have first (place : Nat) (within : place < ids.length) :
      (ids ++ ids)[place]? = some ids[place] := by
    rw [List.getElem?_append_left within, List.getElem?_eq_getElem within]
  have second (place : Nat) (within : place < ids.length) :
      (ids ++ ids)[ids.length + place]? = some ids[place] := by
    rw [List.getElem?_append_right (Nat.le_add_right _ _), Nat.add_sub_cancel_left,
      List.getElem?_eq_getElem within]
  have window : (windows (ids ++ ids))[start]? =
      some (ids[start], ids[start + 1], ids[start + 2]) :=
    (window_at ..).mpr ⟨first _ (by omega), first _ (by omega), first _ inside⟩
  have again : (windows (ids ++ ids))[ids.length + start]? =
      some (ids[start], ids[start + 1], ids[start + 2]) :=
    (window_at ..).mpr ⟨second start (by omega), second (start + 1) (by omega),
      second (start + 2) inside⟩
  exact ⟨⟨_, window, _, by omega, again⟩, ⟨_, again, _, by omega, window⟩⟩

theorem window_coverage_doubled {ids : List Nat} (long : 3 ≤ ids.length) :
    windowCoverage (ids ++ ids) = 2 * ids.length := by
  have all : ∀ place ∈ List.range (ids ++ ids).length,
      decide (Reached 0 (repeatedStarts (ids ++ ids)) place) = true := by
    intro place member
    rw [List.mem_range, List.length_append] at member
    rw [decide_eq_true_iff]
    right
    -- Every line is in a window that does not go beyond its own half.
    by_cases half : place < ids.length
    · refine ⟨min place (ids.length - 3), by omega, by omega, ?_⟩
      exact (repeated_start_iff _ _).mpr (doubled_repeats (by omega)).1
    · refine ⟨ids.length + min (place - ids.length) (ids.length - 3), by omega, by omega, ?_⟩
      exact (repeated_start_iff _ _).mpr (doubled_repeats (by omega)).2
  rw [window_coverage_eq, List.countP_eq_length.mpr all, List.length_range, List.length_append]
  omega

/- Either way of counting copied lines. -/

theorem copied_within (limit : Nat) (ids : List Nat) : copiedLines limit ids ≤ ids.length := by
  rw [copiedLines]
  split
  · exact window_coverage_within ids
  · exact longest_within ids

theorem doubled_all_copied (limit : Nat) {ids : List Nat} (long : 3 ≤ ids.length) :
    copiedLines limit (ids ++ ids) = 2 * ids.length := by
  rw [copiedLines]
  split
  · exact window_coverage_doubled long
  · have most := longest_within (ids ++ ids)
    rw [List.length_append] at most
    have least := longest_doubled ids
    omega

/- One line or two are no window, so that the estimate can be nothing even if they are written
twice. Then they have nothing in common, and nothing was copied before. -/

theorem copied_short (limit : Nat) {ids : List Nat} (short : ids.length < 3) :
    copiedLines limit ids ≤ longestBlockCoverage ids := by
  rw [copiedLines]
  split
  · rw [window_coverage_short short]
    exact Nat.zero_le _
  · exact Nat.le_refl _

theorem pair_coverage (a b : Nat) : longestBlockCoverage [a, b] = if a = b then 2 else 0 := by
  by_cases same : a = b <;> simp [longestBlockCoverage, coverageAt, List.range_succ, same]

theorem equal_pair_doubled (limit a : Nat) : copiedLines limit [a, a, a, a] = 4 := by
  rw [copiedLines]
  split
  · simp [windowCoverage, repeatedStarts, windows, reachedFrom]
  · apply Nat.le_antisymm
    · exact longest_within [a, a, a, a]
    · exact longest_doubled [a, a]

theorem copied_doubled (limit : Nat) (ids : List Nat) :
    2 * copiedLines limit ids ≤ copiedLines limit (ids ++ ids) := by
  have within := copied_within limit ids
  by_cases long : 3 ≤ ids.length
  · rw [doubled_all_copied limit long]
    omega
  · have once : copiedLines limit ids ≤ longestBlockCoverage ids := copied_short limit (by omega)
    match ids with
    | [] =>
      have nothing : longestBlockCoverage [] = 0 := rfl
      omega
    | [a] =>
      have nothing : longestBlockCoverage [a] = 0 := rfl
      omega
    | [a, b] =>
      rw [pair_coverage] at once
      by_cases same : a = b
      · subst same
        have doubled : copiedLines limit ([a, a] ++ [a, a]) = 4 := equal_pair_doubled limit a
        rw [if_pos rfl] at once
        omega
      · rw [if_neg same] at once
        omega
    | a :: b :: c :: rest => exact absurd (by simp) long

end Authorship.Analysis
