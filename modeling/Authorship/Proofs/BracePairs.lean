import Authorship.Proofs.DefinitionOffsets

/-
Pairs of braces told by counting. Between the two braces of a pair as many are closed as are opened,
and up to no place in between have more been closed; this leaves a brace one partner at most, and a
pair that begins within another one no way to end beyond it.
-/
namespace Authorship.Lexicon

open Text

variable {α : Type} {opening closing : α}

/- What is balanced is told by counting. -/

/-- As many braces are closed as are opened, and nowhere have more been closed than opened. -/
structure ClosedEvenly [DecidableEq α] (opening closing : α) (xs : List α) : Prop where
  level : xs.count closing = xs.count opening
  neverBelow : ∀ read, read <+: xs → read.count closing ≤ read.count opening

/-- Balanced but for braces that close as many levels, each with balanced text before it. -/
inductive ClosesLevels (opening closing : α) : Nat → List α → Prop where
  | none {xs : List α} (balanced : Balanced opening closing xs) : ClosesLevels opening closing 0 xs
  | one {levels : Nat} {xs ys : List α} (balanced : Balanced opening closing xs)
      (rest : ClosesLevels opening closing levels ys) :
      ClosesLevels opening closing (levels + 1) (xs ++ closing :: ys)

theorem closes_after {levels : Nat} {xs ys : List α} (balanced : Balanced opening closing xs)
    (rest : ClosesLevels opening closing levels ys) :
    ClosesLevels opening closing levels (xs ++ ys) := by
  cases rest with
  | none balanced' => exact .none (balanced_append balanced balanced')
  | one balanced' rest =>
    rw [← List.append_assoc]
    exact .one (balanced_append balanced balanced') rest

theorem closes_after_opening {levels : Nat} {xs : List α}
    (rest : ClosesLevels opening closing (levels + 1) xs) :
    ClosesLevels opening closing levels (opening :: xs) := by
  cases rest with
  | one balanced rest =>
    have group := closes_after (.group balanced .nil) rest
    simpa using group

section

variable [DecidableEq α] (apart : opening ≠ closing) {xs : List α}

include apart

theorem closes_of_counts {levels : Nat} (level : xs.count closing = xs.count opening + levels)
    (neverBelow : ∀ read, read <+: xs → read.count closing ≤ read.count opening + levels) :
    ClosesLevels opening closing levels xs := by
  -- Each brace that opens asks for one more level of what follows it.
  induction xs generalizing levels with
  | nil =>
    have done : levels = 0 := by simpa using level.symm
    subst done
    exact .none .nil
  | cons x xs ih =>
    have next {read : List α} (part : read <+: xs) := neverBelow (x :: read) (by simpa using part)
    by_cases opens : x = opening
    · subst opens
      simp only [List.count_cons_self, List.count_cons_of_ne apart] at level next
      refine closes_after_opening (ih (by omega) ?_)
      intro read part
      have := next part
      omega
    by_cases closes : x = closing
    · subst closes
      simp only [List.count_cons_self, List.count_cons_of_ne opens] at level next
      have opened := next (List.nil_prefix)
      cases levels with
      | zero => simp at opened
      | succ levels =>
        refine .one .nil (ih (by omega) ?_)
        intro read part
        have := next part
        omega
    · simp only [List.count_cons_of_ne opens, List.count_cons_of_ne closes] at level next
      exact closes_after (.other opens closes .nil) (ih level fun read part => next part)

theorem balanced_iff_closed_evenly :
    Balanced opening closing xs ↔ ClosedEvenly opening closing xs := by
  constructor
  · intro balanced
    refine ⟨(balanced_counts apart balanced).symm, ?_⟩
    intro read part
    exact prefix_counts apart balanced part
  · intro even
    have closes : ClosesLevels opening closing 0 xs :=
      closes_of_counts apart even.level even.neverBelow
    cases closes with
    | none balanced => exact balanced

end

def between (xs : List α) (i j : Nat) : List α := (xs.take j).drop (i + 1)

structure PairAt [DecidableEq α] (opening closing : α) (xs : List α) (i j : Nat) : Prop where
  opens : xs[i]? = some opening
  closes : xs[j]? = some closing
  before : i < j
  even : ClosedEvenly opening closing (between xs i j)

variable {xs : List α} {i j k : Nat}

theorem taken_at {x : α} (here : xs[i]? = some x) (before : i < j) :
    xs.take j = xs.take i ++ x :: between xs i j := by
  obtain ⟨inside, rfl⟩ := List.getElem?_eq_some_iff.mp here
  have inside' : i < (xs.take j).length := by
    rw [List.length_take]
    omega
  have parts := List.take_append_drop i (xs.take j)
  rw [List.take_take, Nat.min_eq_left before.le, List.drop_eq_getElem_cons inside',
    List.getElem_take] at parts
  exact parts.symm

theorem between_at {x : α} (here : xs[j]? = some x) (first : i < j) (second : j < k) :
    between xs i k = between xs i j ++ x :: between xs j k := by
  have inside : i + 1 ≤ (xs.take j).length := by
    have := (List.getElem?_eq_some_iff.mp here).1
    rw [List.length_take]
    omega
  rw [between, between, taken_at here second, List.drop_append_of_le_length inside]

/-- Where the second of two places is, and what stands between them. -/
theorem place_after (before body after : List α) (x y : α) :
    (before ++ x :: (body ++ y :: after))[before.length + 1 + body.length]? = some y ∧
      between (before ++ x :: (body ++ y :: after)) before.length
        (before.length + 1 + body.length) = body := by
  have text : before ++ x :: (body ++ y :: after) = ((before ++ [x]) ++ body) ++ y :: after := by
    simp
  have length : before.length + 1 + body.length = ((before ++ [x]) ++ body).length := by
    rw [List.length_append, List.length_append, List.length_singleton]
  constructor
  · rw [length, text, List.getElem?_append_right (Nat.le_refl _), Nat.sub_self,
      List.getElem?_cons_zero]
  · rw [between, length, text, List.take_left, List.drop_left' (by simp)]

variable [DecidableEq α]

theorem matched_iff_pair (apart : opening ≠ closing) :
    MatchedAt opening closing xs i j ↔ PairAt opening closing xs i j := by
  constructor
  · rintro ⟨before, body, after, rfl, balanced, rfl, rfl⟩
    obtain ⟨closes, inside⟩ := place_after before body after opening closing
    refine ⟨by simp, closes, by omega, ?_⟩
    rw [inside]
    exact (balanced_iff_closed_evenly apart).mp balanced
  · rintro ⟨opens, closes, before, even⟩
    obtain ⟨inside, closer⟩ := List.getElem?_eq_some_iff.mp closes
    have rest := List.drop_eq_getElem_cons inside
    rw [closer] at rest
    refine ⟨xs.take i, between xs i j, xs.drop (j + 1), ?_, ?_, ?_, ?_⟩
    · rw [← List.cons_append, ← List.append_assoc, ← taken_at opens before, ← rest,
        List.take_append_drop]
    · exact (balanced_iff_closed_evenly apart).mpr even
    · rw [List.length_take]
      omega
    · rw [between, List.length_drop, List.length_take]
      omega

/- No pair is made twice. -/

/-- The pairs that are made come with ever later closing braces, all of them still to be read. -/
theorem pairs_ascend (opening closing : α) (position : Nat) (opened : List Nat) (xs : List α) :
    (pairBraces opening closing position opened xs).Pairwise (fun p q => p.2 < q.2) ∧
      ∀ p ∈ pairBraces opening closing position opened xs, position ≤ p.2 := by
  induction xs generalizing position opened with
  | nil => simp [pairBraces]
  | cons x xs ih =>
    have passed (opened : List Nat) :
        (pairBraces opening closing (position + 1) opened xs).Pairwise (fun p q => p.2 < q.2) ∧
          ∀ p ∈ pairBraces opening closing (position + 1) opened xs, position ≤ p.2 := by
      obtain ⟨ascend, later⟩ := ih (position + 1) opened
      exact ⟨ascend, fun p member => Nat.le_of_succ_le (later p member)⟩
    simp only [pairBraces]
    split
    · exact passed _
    · split
      · cases opened with
        | nil => exact passed []
        | cons start outer =>
          obtain ⟨ascend, later⟩ := ih (position + 1) outer
          exact ⟨.cons later ascend,
            List.forall_mem_cons.mpr ⟨Nat.le_refl position, (passed outer).2⟩⟩
      · exact passed opened

theorem brace_pairs_ascend (opening closing : α) (xs : List α) :
    (bracePairs opening closing xs).Pairwise fun p q => p.2 < q.2 :=
  (pairs_ascend opening closing 0 [] xs).1

theorem openers_distinct (apart : opening ≠ closing) (xs : List α) :
    ((bracePairs opening closing xs).map Prod.fst).Nodup := by
  have distinct : (bracePairs opening closing xs).Nodup :=
    (brace_pairs_ascend opening closing xs).imp fun later same => (same ▸ later).false
  refine distinct.map_on ?_
  rintro ⟨i, j⟩ made ⟨i', j'⟩ made' (rfl : i = i')
  rw [mem_brace_pairs apart] at made made'
  rw [matched_unique apart made made']

theorem closers_distinct (opening closing : α) (xs : List α) :
    ((bracePairs opening closing xs).map Prod.snd).Nodup :=
  List.pairwise_map.mpr ((brace_pairs_ascend opening closing xs).imp Nat.ne_of_lt)

theorem inner_ends_first (apart : opening ≠ closing) {i' j' : Nat}
    (outer : PairAt opening closing xs i j) (inner : PairAt opening closing xs i' j')
    (begins : i < i') (inside : i' < j) : j' < j := by
  -- Otherwise the text from the inner opening brace up to `j` closes one brace more than it opens.
  -- The text after that brace is also the beginning of what the inner pair surrounds.
  by_contra beyond
  have parts := between_at inner.opens begins inside
  have level := outer.even.level
  have first := outer.even.neverBelow (between xs i i') ⟨_, parts.symm⟩
  have part : between xs i' j <+: between xs i' j' :=
    (List.take_prefix_take_left (by omega)).drop (i' + 1)
  have second := inner.even.neverBelow _ part
  rw [parts, List.count_append, List.count_append, List.count_cons_self,
    List.count_cons_of_ne apart] at level
  omega

/-- Every brace is in one pair only, and of two pairs one ends before the other begins or stands
within it. -/
structure NestedPairs (pairs : List (Nat × Nat)) : Prop where
  opensOnce : (pairs.map Prod.fst).Nodup
  closesOnce : (pairs.map Prod.snd).Nodup
  uncrossed : ∀ p ∈ pairs, ∀ q ∈ pairs, p.1 < q.1 → p.2 < q.1 ∨ q.2 < p.2

theorem brace_pairs_nested (apart : opening ≠ closing) (xs : List α) :
    NestedPairs (bracePairs opening closing xs) := by
  refine ⟨openers_distinct apart xs, closers_distinct opening closing xs, ?_⟩
  rintro ⟨i, j⟩ made ⟨i', j'⟩ made' (begins : i < i')
  rw [mem_brace_pairs apart, matched_iff_pair apart] at made made'
  rcases Nat.lt_trichotomy i' j with inside | same | outside
  · exact Or.inr (inner_ends_first apart made made' begins inside)
  · subst same
    have both := made'.opens.symm.trans made.closes
    exact absurd (Option.some.inj both) apart
  · exact Or.inl outside

/-- Of any bytes, two are paired exactly when they are an opening and a later closing brace with
balanced bytes between them, so that pairs never cross and share no brace. For the bytes of a text
they are the pairs of its characters. -/
theorem braces_paired_around_balanced :
    (∀ bytes : List UInt8,
      (∀ i j, (bracePairs (byteOf '{') (byteOf '}') bytes).lookup i = some j ↔
        PairAt (byteOf '{') (byteOf '}') bytes i j) ∧
      NestedPairs (bracePairs (byteOf '{') (byteOf '}') bytes)) ∧
    ∀ text, bracePairs (byteOf '{') (byteOf '}') (utf8 text) =
      (bracePairs '{' '}' text).map (Prod.map (offsetOf text) (offsetOf text)) := by
  have apart : byteOf '{' ≠ byteOf '}' := by decide
  refine ⟨fun bytes => ⟨fun i j => ?_, brace_pairs_nested apart bytes⟩, bytes_paired⟩
  rw [lookup_brace_pairs apart, matched_iff_pair apart]

/-- The last closing brace and the last opening one have no partner. -/
example : bracePairs '{' '}' "\x7b \x7b \x7d \x7d \x7d \x7b".toList = [(2, 4), (0, 6)] := by
  decide

end Authorship.Lexicon
