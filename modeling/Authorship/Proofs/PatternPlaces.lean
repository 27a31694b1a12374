import Authorship.Proofs.PatternMatches
import Mathlib.Data.List.TakeWhile

/-
Exactly where a pattern leads, which of the places is the first, and what the search for matches
passes over.
-/
namespace Authorship

theorem Cursor.Reads.unique {a b b' : Cursor} {cs : List Char} (read : a.Reads cs b)
    (read' : a.Reads cs b') : b = b' := by
  have ahead : b.ahead = b'.ahead := List.append_cancel_left (read.ahead.symm.trans read'.ahead)
  cases b with
  | mk before taken rest =>
    cases b' with
    | mk before' taken' rest' =>
      rw [Cursor.mk.injEq]
      exact ⟨read.before.trans read'.before.symm, read.taken.trans read'.taken.symm, ahead⟩

namespace Pattern

variable {p : Pattern} {ps : List Pattern} {a b : Cursor} {q : Char → Bool}

theorem sequence_cons (p : Pattern) (ps : List Pattern) (a : Cursor) :
    sequence (p :: ps) a = (p a).flatMap (sequence ps) := by
  cases ps with
  | nil => exact (List.flatMap_singleton' _).symm
  | cons q ps => exact from_each_eq_flat_map _ _

theorem expect_at (before taken cs rest : List Char) :
    expect before taken cs (cs ++ rest) = some ⟨before, cs.reverse ++ taken, rest⟩ := by
  induction cs generalizing taken with
  | nil => rfl
  | cons c cs ih => simp [expect, ih]

theorem mem_literals {texts : List (List Char)} :
    b ∈ literals texts a ↔ ∃ cs ∈ texts, a.Reads cs b := by
  refine ⟨spells_literals texts a b, ?_⟩
  rintro ⟨cs, member, read⟩
  have here : expect a.before a.taken cs a.ahead = some b := by
    rw [read.ahead, expect_at, ← read.taken, ← read.before]
  induction texts with
  | nil => cases member
  | cons ds texts ih =>
    rw [literals]
    rcases List.mem_cons.mp member with rfl | later
    · rw [here]
      exact List.mem_cons_self
    · split
      · exact List.mem_cons_of_mem _ (ih later)
      · exact ih later

theorem mem_satisfying : b ∈ satisfying q a ↔ ∃ c, q c = true ∧ a.Reads [c] b := by
  constructor
  · intro led
    obtain ⟨cs, ⟨c, holds, rfl⟩, read⟩ := spells_satisfying q a b led
    exact ⟨c, holds, read⟩
  · rintro ⟨c, holds, read⟩
    cases a with
    | mk before taken ahead =>
      obtain rfl : ahead = c :: b.ahead := read.ahead
      rw [satisfying, if_pos holds, List.mem_singleton]
      exact read.unique (Cursor.reads_one before taken b.ahead c)

theorem span_from_at (before taken : List Char) {cs rest : List Char} (all : cs ∈ allOf q)
    (ends : rest.head?.any q = false) :
    spanFrom q before taken (cs ++ rest) = ⟨before, cs.reverse ++ taken, rest⟩ := by
  induction cs generalizing taken with
  | nil =>
    cases rest with
    | nil => rfl
    | cons c rest =>
      have fails : ¬q c = true := by simpa using ends
      rw [List.nil_append, spanFrom, if_neg fails]
      rfl
  | cons c cs ih =>
    obtain ⟨holds, all⟩ := List.forall_mem_cons.mp all
    rw [List.cons_append, spanFrom, if_pos holds, ih _ all, List.reverse_cons, List.append_assoc]
    rfl

theorem mem_span :
    b ∈ span q a ↔ ∃ cs ∈ allOf q, a.Reads cs b ∧ b.ahead.head?.any q = false := by
  constructor
  · intro led
    obtain ⟨cs, all, read⟩ := spells_span q a b led
    exact ⟨cs, all, read, span_ends led⟩
  · rintro ⟨cs, all, read, ends⟩
    rw [span, List.mem_singleton, read.ahead, span_from_at _ _ all ends, ← read.before,
      ← read.taken]

theorem mem_span1 : b ∈ span1 q a ↔
    ∃ cs ∈ allOf q, cs ≠ [] ∧ a.Reads cs b ∧ b.ahead.head?.any q = false := by
  constructor
  · intro led
    obtain ⟨between, first, led⟩ := mem_sequence_cons.mp led
    obtain ⟨c, holds, read⟩ := mem_satisfying.mp first
    obtain ⟨cs, all, read', ends⟩ := mem_span.mp led
    exact ⟨[c] ++ cs, List.forall_mem_cons.mpr ⟨holds, all⟩, List.cons_ne_nil c cs,
      read.append read', ends⟩
  · rintro ⟨cs, all, some, read, ends⟩
    obtain ⟨c, cs, rfl⟩ := List.exists_cons_of_ne_nil some
    obtain ⟨holds, all⟩ := List.forall_mem_cons.mp all
    refine mem_sequence_cons.mpr ⟨⟨a.before, c :: a.taken, cs ++ b.ahead⟩, ?_, ?_⟩
    · exact mem_satisfying.mpr ⟨c, holds, rfl, rfl, read.ahead⟩
    · refine mem_span.mpr ⟨cs, all, ⟨read.before, ?_, rfl⟩, ends⟩
      simp [read.taken]

theorem boundary_at (a : Cursor) : boundary a =
    if (a.taken ++ a.before).head?.any Text.isWord != a.ahead.head?.any Text.isWord then [a]
    else [] := by
  rw [boundary]
  cases a.taken <;> rfl

theorem mem_boundary : b ∈ boundary a ↔
    b = a ∧ (a.taken ++ a.before).head?.any Text.isWord ≠ a.ahead.head?.any Text.isWord := by
  rw [boundary_at]
  split
  · rename_i other
    rw [List.mem_singleton, and_iff_left (bne_iff_ne.mp other)]
  · rename_i same
    rw [bne_iff_ne] at same
    exact ⟨fun led => absurd led List.not_mem_nil, fun stays => absurd stays.2 same⟩

theorem first_of_all {places : List Cursor} (all : ∀ place ∈ places, place = b)
    (member : b ∈ places) : ∃ others, places = b :: others := by
  cases places with
  | nil => cases member
  | cons place others => exact ⟨others, by rw [all place List.mem_cons_self]⟩

theorem repeated_stays (none : p a = []) (turns : Nat) (fewer : List Cursor) :
    repeated p turns a fewer = a :: fewer := by
  cases turns with
  | zero => rfl
  | succ turns => rw [repeated, none, List.foldr_nil]

theorem head_excludes {q' : Char → Bool} {cs : List Char} (begins : cs.head?.any q = true)
    (apart : ∀ c, q' c = true → q c = false) : cs.head?.any q' = false := by
  cases cs with
  | nil => rfl
  | cons c cs =>
    refine Bool.eq_false_iff.mpr fun holds => ?_
    rw [List.head?_cons, Option.any_some, apart c holds] at begins
    cases begins

theorem take_run {cs rest : List Char} (all : ∀ c ∈ cs, q c = true)
    (ends : rest.head?.any q = false) : (cs ++ rest).takeWhile q = cs := by
  rw [List.takeWhile_append_of_pos all]
  cases rest with
  | nil => exact List.append_nil cs
  | cons c rest => rw [List.takeWhile_cons_of_neg (by simpa using ends), List.append_nil]

theorem drop_run {cs rest : List Char} (all : ∀ c ∈ cs, q c = true)
    (ends : rest.head?.any q = false) : (cs ++ rest).dropWhile q = rest := by
  rw [List.dropWhile_append_of_pos all]
  cases rest with
  | nil => rfl
  | cons c rest => exact List.dropWhile_cons_of_neg (by simpa using ends)

variable {before : List Char}

theorem matches_from_covered (xs rest : List Char) :
    matchesFrom p before xs.length (xs ++ rest) = matchesFrom p (xs.reverse ++ before) 0 rest := by
  induction xs generalizing before with
  | nil => rfl
  | cons c xs ih =>
    rw [List.length_cons, List.cons_append, matchesFrom, ih, List.reverse_cons, List.append_assoc]
    rfl

theorem matches_from_found {text rest : List Char} (nonempty : text ≠ [])
    (found : matchAt? p before (text ++ rest) = some ⟨before, text, rest⟩) :
    matchesFrom p before 0 (text ++ rest) =
      ⟨before, text, rest⟩ :: matchesFrom p (text.reverse ++ before) 0 rest := by
  obtain ⟨c, text, rfl⟩ := List.exists_cons_of_ne_nil nonempty
  rw [List.cons_append] at found ⊢
  rw [matchesFrom, found]
  dsimp only
  rw [List.length_cons, Nat.add_sub_cancel, matches_from_covered, List.reverse_cons,
    List.append_assoc]
  rfl

theorem replace_from_covered (f : List Char → List Char) (xs rest : List Char) :
    replaceFrom p f before xs.length (xs ++ rest) =
      replaceFrom p f (xs.reverse ++ before) 0 rest := by
  induction xs generalizing before with
  | nil => rfl
  | cons c xs ih =>
    rw [List.length_cons, List.cons_append, replaceFrom, ih, List.reverse_cons, List.append_assoc]
    rfl

theorem replace_from_found (f : List Char → List Char) {text rest : List Char}
    (nonempty : text ≠ []) (found : matchAt? p before (text ++ rest) = some ⟨before, text, rest⟩) :
    replaceFrom p f before 0 (text ++ rest) =
      f text ++ replaceFrom p f (text.reverse ++ before) 0 rest := by
  obtain ⟨c, text, rfl⟩ := List.exists_cons_of_ne_nil nonempty
  rw [List.cons_append] at found ⊢
  rw [replaceFrom, found]
  dsimp only
  rw [List.length_cons, Nat.add_sub_cancel, replace_from_covered, List.reverse_cons,
    List.append_assoc]
  rfl

theorem replace_from_none (f : List Char → List Char) {c : Char} {ahead : List Char}
    (none : matchAt? p before (c :: ahead) = none) :
    replaceFrom p f before 0 (c :: ahead) = c :: replaceFrom p f (c :: before) 0 ahead := by
  rw [replaceFrom, none]

theorem matches_from_none {xs rest : List Char}
    (none : ∀ passed c left, xs = passed ++ c :: left →
      matchAt? p (passed.reverse ++ before) (c :: (left ++ rest)) = none) :
    matchesFrom p before 0 (xs ++ rest) = matchesFrom p (xs.reverse ++ before) 0 rest := by
  induction xs generalizing before with
  | nil => rfl
  | cons c xs ih =>
    have here := none [] c xs rfl
    rw [List.reverse_nil, List.nil_append] at here
    rw [List.cons_append, matchesFrom, here]
    dsimp only
    rw [ih fun passed d left split => ?_, List.reverse_cons, List.append_assoc]
    · rfl
    · have later := none (c :: passed) d left (by rw [split]; rfl)
      rwa [List.reverse_cons, List.append_assoc] at later

end Pattern

end Authorship
