import Authorship.Proofs.CopiedBlocks
import Mathlib.Data.Finset.Card

/-
Lines and windows of lines that are there again. Of each kind the first is not counted, so that the
repetitions are what is left of all of them when every kind is set aside once. Numbering the lines
keeps their kinds apart, and with them the kinds of windows.
-/
namespace Authorship.Analysis

variable {β γ : Type}

theorem no_window {xs : List β} (short : ∀ a b c rest, xs = a :: b :: c :: rest → False) :
    xs.length - 2 = 0 := by
  match xs, short with
  | [], _ | [_], _ | [_, _], _ => rfl
  | a :: b :: c :: rest, short => exact absurd rfl (short a b c rest)

theorem windows_begin (xs : List β) : (windows xs).map (·.1) = xs.take (xs.length - 2) := by
  fun_induction windows xs with
  | case1 a b c rest ih => simpa using ih
  | case2 xs short =>
    rw [no_window short]
    rfl

theorem windows_numbered (number : β → γ) (xs : List β) :
    windows (xs.map number) =
      (windows xs).map fun w => (number w.1, number w.2.1, number w.2.2) := by
  fun_induction windows xs with
  | case1 a b c rest ih => simpa [windows] using ih
  | case2 xs short =>
    have none : (windows (xs.map number)).length = 0 := by
      rw [windows_length, List.length_map, no_window short]
    rw [List.eq_nil_of_length_eq_zero none]
    rfl

theorem windows_listed (xs : List β) : (windows xs).map (fun w => [w.1, w.2.1, w.2.2]) =
    (List.range (xs.length - 2)).map fun start => (xs.drop start).take 3 := by
  fun_induction windows xs with
  | case1 a b c rest ih =>
    have more : (a :: b :: c :: rest).length - 2 = (b :: c :: rest).length - 2 + 1 := by simp
    rw [List.map_cons, ih, more, List.range_succ_eq_map, List.map_cons, List.map_map]
    rfl
  | case2 xs short =>
    rw [no_window short]
    rfl

theorem mem_of_window {xs : List β} {w : β × β × β} (member : w ∈ windows xs) :
    w.1 ∈ xs ∧ w.2.1 ∈ xs ∧ w.2.2 ∈ xs := by
  obtain ⟨start, here⟩ := List.mem_iff_getElem?.mp member
  obtain ⟨first, second, third⟩ := (window_at xs start w.1 w.2.1 w.2.2).mp here
  exact ⟨List.mem_of_getElem? first, List.mem_of_getElem? second, List.mem_of_getElem? third⟩

/-- The element is there before, too. -/
def RepeatsAt (xs : List β) (place : Nat) : Prop := ∃ earlier < place, xs[earlier]? = xs[place]?

theorem repeats_before {xs : List β} {place : Nat} (x : β) (inside : place < xs.length) :
    RepeatsAt (xs ++ [x]) place ↔ RepeatsAt xs place := by
  refine exists_congr fun earlier => and_congr_right fun before => ?_
  rw [List.getElem?_append_left inside, List.getElem?_append_left (before.trans inside)]

theorem repeats_last (xs : List β) (x : β) : RepeatsAt (xs ++ [x]) xs.length ↔ x ∈ xs := by
  rw [List.mem_iff_getElem?]
  refine exists_congr fun earlier => ?_
  constructor
  · rintro ⟨before, same⟩
    simpa [List.getElem?_append_left before] using same
  · intro here
    have before := (List.getElem?_eq_some_iff.mp here).1
    exact ⟨before, by simpa [List.getElem?_append_left before] using here⟩

section

variable [DecidableEq β] [DecidableEq γ]

instance (xs : List β) : DecidablePred (RepeatsAt xs) := fun place =>
  inferInstanceAs (Decidable (∃ earlier < place, xs[earlier]? = xs[place]?))

theorem distinct_nodup (xs : List β) : xs.eraseDups.Nodup := by
  induction h : xs.length using Nat.strongRecOn generalizing xs with
  | ind n ih =>
    cases xs with
    | nil => exact .nil
    | cons x xs =>
      have less : (xs.filter (!· == x)).length < n := by
        have part := List.length_filter_le (!· == x) xs
        rw [List.length_cons] at h
        omega
      have other : x ∉ (xs.filter (!· == x)).eraseDups := by
        intro member
        have kept := (List.mem_filter.mp (List.mem_eraseDups.mp member)).2
        simp at kept
      rw [List.eraseDups_cons]
      exact List.nodup_cons.mpr ⟨other, ih _ less _ rfl⟩

theorem extra_and_kinds (xs : List β) : extraOccurrences xs + xs.toFinset.card = xs.length := by
  have kinds : xs.eraseDups.toFinset = xs.toFinset := by
    ext x
    rw [List.mem_toFinset, List.mem_toFinset, List.mem_eraseDups]
  rw [← kinds, List.toFinset_card_of_nodup (distinct_nodup xs)]
  exact extra_and_distinct xs

theorem distinct_snoc (xs : List β) (x : β) :
    (xs ++ [x]).eraseDups.length = xs.eraseDups.length + if x ∈ xs then 0 else 1 := by
  rw [List.eraseDups_append, List.length_append]
  by_cases known : x ∈ xs <;> simp [List.removeAll, List.eraseDups_cons, known]

theorem repeats_counted (xs : List β) :
    (List.range xs.length).countP (RepeatsAt xs ·) = extraOccurrences xs := by
  induction xs using List.reverseRecOn with
  | nil => rfl
  | append_singleton xs x ih =>
    have earlier : (List.range xs.length).countP (RepeatsAt (xs ++ [x]) ·) =
        extraOccurrences xs := by
      rw [← ih]
      refine List.countP_congr fun place member => ?_
      simp only [decide_eq_true_iff, repeats_before x (List.mem_range.mp member)]
    have whole := extra_and_distinct (xs ++ [x])
    have part := extra_and_distinct xs
    rw [List.length_append, List.length_singleton, distinct_snoc] at whole
    rw [List.length_append, List.length_singleton, List.range_succ, List.countP_append, earlier,
      List.countP_singleton]
    simp only [decide_eq_true_iff, repeats_last]
    by_cases known : x ∈ xs
    · rw [if_pos known] at whole ⊢
      omega
    · rw [if_neg known] at whole ⊢
      omega

theorem kinds_numbered {number : β → γ} {xs : List β}
    (faithful : ∀ x ∈ xs, ∀ y ∈ xs, number x = number y → x = y) :
    (xs.map number).toFinset.card = xs.toFinset.card := by
  have image : (xs.map number).toFinset = xs.toFinset.image number := by
    ext y
    simp
  rw [image]
  apply Finset.card_image_of_injOn
  intro x first y second same
  exact faithful x (List.mem_toFinset.mp first) y (List.mem_toFinset.mp second) same

/-- Every line but the last two begins a window, so that there are hardly more kinds of lines than
of windows. -/
theorem kinds_of_lines_le (xs : List β) :
    xs.toFinset.card ≤ (windows xs).toFinset.card + min 2 xs.length := by
  have firsts : (xs.take (xs.length - 2)).toFinset = (windows xs).toFinset.image (·.1) := by
    rw [← windows_begin]
    ext x
    simp
  have beginning : (xs.take (xs.length - 2)).toFinset.card ≤ (windows xs).toFinset.card := by
    rw [firsts]
    exact Finset.card_image_le
  have last : (xs.drop (xs.length - 2)).toFinset.card ≤ min 2 xs.length := by
    have short := List.toFinset_card_le (xs.drop (xs.length - 2))
    rw [List.length_drop] at short
    omega
  calc xs.toFinset.card
      = ((xs.take (xs.length - 2)).toFinset ∪ (xs.drop (xs.length - 2)).toFinset).card := by
        rw [← List.toFinset_append, List.take_append_drop]
    _ ≤ (xs.take (xs.length - 2)).toFinset.card + (xs.drop (xs.length - 2)).toFinset.card :=
        Finset.card_union_le _ _
    _ ≤ (windows xs).toFinset.card + min 2 xs.length := by omega

/-- Where a window is there again, so is the line that it begins with. -/
theorem extra_windows_le (xs : List β) :
    extraOccurrences (windows xs) ≤ extraOccurrences xs := by
  have lines := extra_and_kinds xs
  have repeated := extra_and_kinds (windows xs)
  have kinds := kinds_of_lines_le xs
  rw [windows_length] at repeated
  omega

def windowKinds (xs : List β) : Finset (List β) :=
  (Finset.range (xs.length - 2)).image fun start => (xs.drop start).take 3

theorem window_kinds_card (xs : List β) :
    (windowKinds xs).card = (windows xs).toFinset.card := by
  have listed : windowKinds xs = ((windows xs).map fun w => [w.1, w.2.1, w.2.2]).toFinset := by
    rw [windows_listed]
    ext window
    simp [windowKinds]
  rw [listed]
  apply kinds_numbered
  intro v _ w _ same
  simp only [List.cons.injEq, and_true] at same
  exact Prod.ext same.1 (Prod.ext same.2.1 same.2.2)

end

theorem intern_length (lines : List (List Char)) : (intern lines).length = lines.length :=
  List.length_map _

theorem intern_faithful (lines : List (List Char)) :
    ∀ a ∈ lines, ∀ b ∈ lines, lines.idxOf a = lines.idxOf b → a = b := by
  intro a first b second same
  exact (List.idxOf_inj first).mp same

theorem window_kinds_interned (lines : List (List Char)) :
    (windows (intern lines)).toFinset.card = (windowKinds lines).card := by
  rw [intern, windows_numbered, window_kinds_card]
  apply kinds_numbered
  intro v first w second same
  have apart := intern_faithful lines
  obtain ⟨v1, v2, v3⟩ := mem_of_window first
  obtain ⟨w1, w2, w3⟩ := mem_of_window second
  simp only [Prod.mk.injEq] at same
  exact Prod.ext (apart _ v1 _ w1 same.1)
    (Prod.ext (apart _ v2 _ w2 same.2.1) (apart _ v3 _ w3 same.2.2))

theorem extra_interned (lines : List (List Char)) :
    extraOccurrences (intern lines) = extraOccurrences lines := by
  have numbered := extra_and_kinds (intern lines)
  have named := extra_and_kinds lines
  have kinds : (intern lines).toFinset.card = lines.toFinset.card :=
    kinds_numbered (intern_faithful lines)
  have length := intern_length lines
  omega

/-- The duplicate lines are all lines but one of each kind, and the repeated windows all runs of
three lines but one of each kind. There are no more of these than of those. -/
theorem repetitions_are_all_but_kinds (lines : List (List Char)) :
    duplicateLines (intern lines) + lines.toFinset.card = lines.length ∧
      repeatedWindows (intern lines) + (windowKinds lines).card = lines.length - 2 ∧
      repeatedWindows (intern lines) ≤ duplicateLines (intern lines) := by
  refine ⟨?_, ?_, extra_windows_le (intern lines)⟩
  · rw [duplicateLines, extra_interned]
    exact extra_and_kinds lines
  · rw [← window_kinds_interned, ← intern_length lines, ← windows_length]
    exact extra_and_kinds (windows (intern lines))

end Authorship.Analysis
