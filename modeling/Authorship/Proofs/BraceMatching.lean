import Authorship.Lexicon.Brace
import Mathlib.Data.List.Basic

/-
The braces that one pass pairs are those with balanced text between them. What the pass has read is
balanced after each brace that is still open, which every step keeps.
-/
namespace Authorship.Lexicon

variable {α : Type} {opening closing : α}

inductive Balanced (opening closing : α) : List α → Prop where
  | nil : Balanced opening closing []
  | other {x : α} {xs : List α} (unopened : x ≠ opening) (unclosed : x ≠ closing)
      (rest : Balanced opening closing xs) : Balanced opening closing (x :: xs)
  | group {inside xs : List α} (within : Balanced opening closing inside)
      (rest : Balanced opening closing xs) :
      Balanced opening closing (opening :: (inside ++ closing :: xs))

theorem balanced_append {xs ys : List α} (first : Balanced opening closing xs)
    (second : Balanced opening closing ys) : Balanced opening closing (xs ++ ys) := by
  induction first with
  | nil => exact second
  | other unopened unclosed rest ih => exact .other unopened unclosed ih
  | group within rest _ ih => simpa using Balanced.group within ih

/-- The text between two positions, with what stands around it, is balanced within braces. -/
def MatchedAt (opening closing : α) (xs : List α) (i j : Nat) : Prop :=
  ∃ before body after, xs = before ++ opening :: (body ++ closing :: after) ∧
    Balanced opening closing body ∧ before.length = i ∧ i + 1 + body.length = j

/-- What has been read with the positions of the braces still open: after each of them it is
balanced up to the next. -/
inductive Pending (opening closing : α) : List α → List Nat → Prop where
  | none (read : List α) : Pending opening closing read []
  | opened {before inside : List α} {outer : List Nat} (rest : Pending opening closing before outer)
      (within : Balanced opening closing inside) :
      Pending opening closing (before ++ opening :: inside) (before.length :: outer)

theorem pending_append {read more : List α} {opened : List Nat}
    (pending : Pending opening closing read opened) (balanced : Balanced opening closing more) :
    Pending opening closing (read ++ more) opened := by
  cases pending with
  | none => exact .none _
  | opened rest within => simpa using Pending.opened rest (balanced_append within balanced)

/- At most one brace closes another. -/

section

variable [DecidableEq α]

theorem balanced_counts (apart : opening ≠ closing) {xs : List α}
    (balanced : Balanced opening closing xs) : xs.count opening = xs.count closing := by
  induction balanced with
  | nil => rfl
  | other unopened unclosed rest ih => simpa [List.count_cons, unopened, unclosed] using ih
  | group within rest ih₁ ih₂ =>
    simp only [List.count_cons, List.count_append, beq_self_eq_true, beq_iff_eq, apart, apart.symm,
      if_true, if_false]
    omega

theorem prefix_counts (apart : opening ≠ closing) {xs : List α}
    (balanced : Balanced opening closing xs) {read : List α} (part : read <+: xs) :
    read.count closing ≤ read.count opening := by
  induction balanced generalizing read with
  | nil => simp [List.prefix_nil.mp part]
  | @other x xs unopened unclosed rest ih =>
    rcases List.prefix_cons_iff.mp part with rfl | ⟨read, rfl, inner⟩
    · simp
    · simpa [List.count_cons, unopened, unclosed] using ih inner
  | @group inside xs within rest ihInside ihRest =>
    rcases List.prefix_cons_iff.mp part with rfl | ⟨read, rfl, after, text⟩
    · simp
    have same := balanced_counts apart within
    rcases List.append_eq_append_iff.mp text with ⟨more, rfl, _⟩ | ⟨more, rfl, tail⟩
    · have := ihInside (List.prefix_append read more)
      simp only [List.count_cons, beq_self_eq_true, beq_iff_eq, apart, if_true, if_false]
      omega
    · rcases List.prefix_cons_iff.mp ⟨after, tail.symm⟩ with rfl | ⟨more, rfl, inner⟩
      · simp [apart, same]
      · have := ihRest inner
        simp only [List.count_cons, List.count_append, beq_self_eq_true, beq_iff_eq, apart,
          apart.symm, if_true, if_false]
        omega

theorem closer_unique (apart : opening ≠ closing) {body body' after after' : List α}
    (balanced : Balanced opening closing body) (balanced' : Balanced opening closing body')
    (same : body ++ closing :: after = body' ++ closing :: after') : body = body' := by
  -- A balanced text that went on past the closing brace would have closed more than it opened.
  have stops {short long rest : List α} (balanced : Balanced opening closing short)
      (balanced' : Balanced opening closing long) : long ≠ short ++ closing :: rest := by
    intro beyond
    have part : short ++ [closing] <+: long := ⟨rest, by simp [beyond]⟩
    have counts := prefix_counts apart balanced' part
    simp only [List.count_append, List.count_singleton, beq_self_eq_true, beq_iff_eq, apart.symm,
      if_true, if_false, balanced_counts apart balanced] at counts
    omega
  rcases List.append_eq_append_iff.mp same with ⟨more, rfl, tail⟩ | ⟨more, rfl, tail⟩
  · cases more with
    | nil => simp
    | cons c more =>
      obtain ⟨rfl, _⟩ := List.cons_eq_cons.mp tail
      exact absurd rfl (stops balanced balanced')
  · cases more with
    | nil => simp
    | cons c more =>
      obtain ⟨rfl, _⟩ := List.cons_eq_cons.mp tail
      exact absurd rfl (stops balanced' balanced)

theorem matched_unique (apart : opening ≠ closing) {xs : List α} {i j j' : Nat}
    (matched : MatchedAt opening closing xs i j) (matched' : MatchedAt opening closing xs i j') :
    j = j' := by
  obtain ⟨before, body, after, text, balanced, start, stop⟩ := matched
  obtain ⟨before', body', after', text', balanced', start', stop'⟩ := matched'
  obtain ⟨_, rest⟩ := List.append_inj (text.symm.trans text') (start.trans start'.symm)
  have same := closer_unique apart balanced balanced' (List.cons_eq_cons.mp rest).2
  rw [← stop, ← stop', same]

section

variable (position : Nat) (opened : List Nat) (xs : List α)

theorem pair_opening : pairBraces opening closing position opened (opening :: xs) =
    pairBraces opening closing (position + 1) (position :: opened) xs := by
  cases opened <;> simp [pairBraces]

theorem pair_closing (apart : opening ≠ closing) :
    pairBraces opening closing position opened (closing :: xs) =
      (opened.head?.map fun start => (start, position)).toList ++
        pairBraces opening closing (position + 1) opened.tail xs := by
  cases opened <;> simp [pairBraces, apart.symm]

theorem pair_other {x : α} (unopened : x ≠ opening) (unclosed : x ≠ closing) :
    pairBraces opening closing position opened (x :: xs) =
      pairBraces opening closing (position + 1) opened xs := by
  cases opened <;> simp [pairBraces, unopened, unclosed]

end

theorem pairs_matched {read ys : List α} {opened : List Nat}
    (pending : Pending opening closing read opened) :
    ∀ p ∈ pairBraces opening closing read.length opened ys,
      MatchedAt opening closing (read ++ ys) p.1 p.2 := by
  induction ys generalizing read opened with
  | nil => simp [pairBraces]
  | cons y ys ih =>
    have step {opened : List Nat} (pending : Pending opening closing (read ++ [y]) opened) :
        ∀ p ∈ pairBraces opening closing (read.length + 1) opened ys,
          MatchedAt opening closing (read ++ y :: ys) p.1 p.2 := by
      have next := ih pending
      rw [List.length_append, List.append_assoc] at next
      exact next
    by_cases opens : y = opening
    · subst opens
      rw [pair_opening]
      exact step (.opened pending .nil)
    by_cases closes : y = closing
    · subst closes
      rw [pair_closing _ _ _ (Ne.symm opens)]
      cases pending with
      | none => exact step (.none _)
      | @opened before inside outer rest within =>
        refine List.forall_mem_cons.mpr ⟨?_, step ?_⟩
        · exact ⟨before, inside, ys, by simp, within, rfl, by simp; omega⟩
        · simpa using pending_append rest (.group within .nil)
    · rw [pair_other _ _ _ opens closes]
      exact step (pending_append pending (.other opens closes .nil))

/- Every matched pair is made. -/

theorem pairs_past (opening closing : α) (position : Nat) (opened : List Nat) (xs ys : List α) :
    ∃ made still, pairBraces opening closing position opened (xs ++ ys) =
      made ++ pairBraces opening closing (position + xs.length) still ys := by
  induction xs generalizing position opened with
  | nil => exact ⟨[], opened, rfl⟩
  | cons x xs ih =>
    have next (opened : List Nat) := ih (position + 1) opened
    simp only [List.cons_append, pairBraces, List.length_cons, Nat.add_right_comm _ 1,
      ← Nat.add_assoc] at next ⊢
    split
    · exact next _
    · split
      · cases opened with
        | nil => exact next _
        | cons start outer =>
          obtain ⟨made, still, rest⟩ := next outer
          exact ⟨(start, position) :: made, still, by simp [rest]⟩
      · exact next _

theorem pairs_past_balanced (apart : opening ≠ closing) {xs : List α}
    (balanced : Balanced opening closing xs) (position : Nat) (opened : List Nat) (ys : List α) :
    ∃ made, pairBraces opening closing position opened (xs ++ ys) =
      made ++ pairBraces opening closing (position + xs.length) opened ys := by
  induction balanced generalizing position opened ys with
  | nil => exact ⟨[], rfl⟩
  | @other x xs unopened unclosed rest ih =>
    obtain ⟨made, same⟩ := ih (position + 1) opened ys
    refine ⟨made, ?_⟩
    rw [List.cons_append, pair_other _ _ _ unopened unclosed, same, List.length_cons,
      Nat.add_right_comm, ← Nat.add_assoc]
  | @group inside xs within rest ihInside ihRest =>
    obtain ⟨made, same⟩ :=
      ihInside (position + 1) (position :: opened) (closing :: (xs ++ ys))
    obtain ⟨made', same'⟩ := ihRest (position + 1 + inside.length + 1) opened ys
    refine ⟨made ++ (position, position + 1 + inside.length) :: made', ?_⟩
    have text : opening :: (inside ++ closing :: xs) ++ ys =
        opening :: (inside ++ closing :: (xs ++ ys)) := by simp
    have length : position + (opening :: (inside ++ closing :: xs)).length =
        position + 1 + inside.length + 1 + xs.length := by simp; omega
    rw [text, length, pair_opening, same, pair_closing _ _ _ apart, List.tail_cons, same']
    simp

theorem mem_brace_pairs (apart : opening ≠ closing) {xs : List α} {i j : Nat} :
    (i, j) ∈ bracePairs opening closing xs ↔ MatchedAt opening closing xs i j := by
  constructor
  · intro made
    exact pairs_matched (.none []) (i, j) made
  · rintro ⟨before, body, after, rfl, balanced, rfl, rfl⟩
    obtain ⟨made, still, first⟩ := pairs_past opening closing 0 [] before
      (opening :: (body ++ closing :: after))
    obtain ⟨made', second⟩ := pairs_past_balanced apart balanced (before.length + 1)
      (before.length :: still) (closing :: after)
    rw [bracePairs, first, Nat.zero_add, pair_opening, second, pair_closing _ _ _ apart]
    simp

/-- The partner that is looked up is the matching brace, whether there is one or not. -/
theorem lookup_brace_pairs (apart : opening ≠ closing) {xs : List α} {i j : Nat} :
    (bracePairs opening closing xs).lookup i = some j ↔ MatchedAt opening closing xs i j := by
  rw [← mem_brace_pairs apart]
  constructor
  · intro found
    obtain ⟨before, after, pairs, _⟩ := List.lookup_eq_some_iff.mp found
    simp [pairs]
  · intro made
    obtain ⟨k, found⟩ : ∃ k, (bracePairs opening closing xs).lookup i = some k := by
      rw [← Option.isSome_iff_exists, Option.isSome_iff_ne_none]
      intro missing
      have none := List.lookup_eq_none_iff.mp missing (i, j) made
      simp at none
    obtain ⟨before, after, pairs, _⟩ := List.lookup_eq_some_iff.mp found
    have member : (i, k) ∈ bracePairs opening closing xs := by simp [pairs]
    rw [found, matched_unique apart ((mem_brace_pairs apart).mp member)
      ((mem_brace_pairs apart).mp made)]

end

end Authorship.Lexicon
