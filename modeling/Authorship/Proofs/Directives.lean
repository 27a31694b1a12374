import Authorship.Proofs.NestingDepths
import Mathlib.Data.List.Flatten

/-
What directives do to the measures of control flow. Their lines are searched for control words like
those of code, and most of these words have no brace that closes their level. The bounds here tell
how far the measures of a file can be from those of its code; only the decisions are counted outside
of directives.
-/
namespace Authorship

namespace Analysis

open Lexicon

def directiveLines (lines : List (List Char)) : List (List Char) := lines.filter isPreprocessor

def withoutDirectives (lines : List (List Char)) : List (List Char) :=
  lines.filter (!isPreprocessor ·)

def levelsOpened (lines : List (List Char)) : Nat := (nestingEvents lines).count .control

def levelsClosed (lines : List (List Char)) : Nat := (nestingEvents lines).count .close

/- Events between those of code. -/

variable {xs ys : List NestingEvent} {depth depth' : Nat}

/-- The deepest level of a walk, the one where it starts included. -/
def deepestFrom (depth : Nat) (events : List NestingEvent) : Nat :=
  max depth (maxOf (depthsFrom depth events))

theorem deepest_of_control (depth : Nat) (events : List NestingEvent) :
    deepestFrom depth (.control :: events) = deepestFrom (depth + 1) events := by
  unfold deepestFrom
  rw [depthsFrom, max_of_cons]
  omega

theorem deepest_of_close (depth : Nat) (events : List NestingEvent) :
    deepestFrom depth (.close :: events) = max depth (deepestFrom (depth - 1) events) := by
  unfold deepestFrom
  rw [depthsFrom]
  omega

theorem le_deepest (depth : Nat) (events : List NestingEvent) : depth ≤ deepestFrom depth events :=
  Nat.le_max_left _ _

theorem deepest_of_lines (lines : List (List Char)) :
    deepestFrom 0 (nestingEvents lines) = maxOf (nestingDepths lines) := Nat.zero_max _

/-- More events reach deeper by one level at most for each control word among them. -/
theorem deepest_with_more {more : Nat} (fewer : xs.Sublist ys) (near : depth ≤ depth' + more) :
    deepestFrom depth ys + xs.count .control ≤
      deepestFrom depth' xs + more + ys.count .control := by
  induction fewer generalizing depth depth' more with
  | slnil => simpa [deepestFrom, depthsFrom, maxOf] using near
  | @cons xs ys event fewer ih =>
    have counts := fewer.count_le .control
    have start := le_deepest depth' xs
    cases event with
    | control =>
      have next : depth + 1 ≤ depth' + (more + 1) := by omega
      have rest := ih next
      rw [deepest_of_control, List.count_cons_self]
      omega
    | close =>
      have next : depth - 1 ≤ depth' + more := by omega
      have rest := ih next
      rw [deepest_of_close, List.count_cons_of_ne (by decide)]
      omega
  | @cons_cons xs ys event fewer ih =>
    have counts := fewer.count_le .control
    cases event with
    | control =>
      have next : depth + 1 ≤ depth' + 1 + more := by omega
      have rest := ih next
      rw [deepest_of_control, deepest_of_control, List.count_cons_self, List.count_cons_self]
      omega
    | close =>
      have next : depth - 1 ≤ depth' - 1 + more := by omega
      have rest := ih next
      rw [deepest_of_close, deepest_of_close, List.count_cons_of_ne (by decide),
        List.count_cons_of_ne (by decide)]
      omega

theorem deepest_with_fewer {less : Nat} (fewer : xs.Sublist ys) (near : depth' ≤ depth + less) :
    deepestFrom depth' xs + xs.count .close ≤ deepestFrom depth ys + less + ys.count .close := by
  induction fewer generalizing depth depth' less with
  | slnil => simpa [deepestFrom, depthsFrom, maxOf] using near
  | @cons xs ys event fewer ih =>
    have counts := fewer.count_le .close
    cases event with
    | control =>
      have next : depth' ≤ depth + 1 + less := by omega
      have rest := ih next
      rw [deepest_of_control, List.count_cons_of_ne (by decide)]
      omega
    | close =>
      have next : depth' ≤ depth - 1 + (less + 1) := by omega
      have rest := ih next
      rw [deepest_of_close, List.count_cons_self]
      omega
  | @cons_cons xs ys event fewer ih =>
    have counts := fewer.count_le .close
    have start := le_deepest depth ys
    cases event with
    | control =>
      have next : depth' + 1 ≤ depth + 1 + less := by omega
      have rest := ih next
      rw [deepest_of_control, deepest_of_control, List.count_cons_of_ne (by decide),
        List.count_cons_of_ne (by decide)]
      omega
    | close =>
      have next : depth' - 1 ≤ depth - 1 + less := by omega
      have rest := ih next
      rw [deepest_of_close, deepest_of_close, List.count_cons_self, List.count_cons_self]
      omega

/-- Each control word among the additional events adds a level at least, and each closing brace
takes one at most from every other control word. -/
theorem sum_with_fewer {less limit : Nat} (fewer : xs.Sublist ys) (near : depth' ≤ depth + less)
    (bound : less + ys.count .close ≤ limit + xs.count .close) :
    (depthsFrom depth' xs).sum + ys.count .control ≤
      (depthsFrom depth ys).sum + xs.count .control + limit * xs.count .control := by
  induction fewer generalizing depth depth' less with
  | slnil => exact Nat.le_refl 0
  | @cons xs ys event fewer ih =>
    cases event with
    | control =>
      rw [List.count_cons_of_ne (by decide)] at bound
      have next : depth' ≤ depth + 1 + less := by omega
      have rest := ih next bound
      rw [depthsFrom, List.sum_cons, List.count_cons_self]
      omega
    | close =>
      rw [List.count_cons_self] at bound
      have next : depth' ≤ depth - 1 + (less + 1) := by omega
      have rest := ih next (by omega)
      rw [depthsFrom, List.count_cons_of_ne (by decide)]
      exact rest
  | @cons_cons xs ys event fewer ih =>
    have counts := fewer.count_le .close
    cases event with
    | control =>
      rw [List.count_cons_of_ne (by decide), List.count_cons_of_ne (by decide)] at bound
      have next : depth' + 1 ≤ depth + 1 + less := by omega
      have rest := ih next bound
      rw [depthsFrom, depthsFrom, List.sum_cons, List.sum_cons, List.count_cons_self,
        List.count_cons_self, Nat.mul_succ]
      omega
    | close =>
      rw [List.count_cons_self, List.count_cons_self] at bound
      have next : depth' - 1 ≤ depth - 1 + less := by omega
      have rest := ih next (by omega)
      rw [depthsFrom, depthsFrom, List.count_cons_of_ne (by decide),
        List.count_cons_of_ne (by decide)]
      exact rest

theorem sum_with_more {more limit top : Nat} (fewer : xs.Sublist ys)
    (near : depth ≤ depth' + more) (bound : more + ys.count .control ≤ limit + xs.count .control)
    (deepest : ∀ d ∈ depthsFrom depth ys, d ≤ top) :
    (depthsFrom depth ys).sum + top * xs.count .control ≤
      (depthsFrom depth' xs).sum + limit * xs.count .control + top * ys.count .control := by
  induction fewer generalizing depth depth' more with
  | slnil => exact Nat.le_refl 0
  | @cons xs ys event fewer ih =>
    cases event with
    | control =>
      rw [List.count_cons_self] at bound
      obtain ⟨first, deepest⟩ := List.forall_mem_cons.mp deepest
      have next : depth + 1 ≤ depth' + (more + 1) := by omega
      have rest := ih next (by omega) deepest
      rw [depthsFrom, List.sum_cons, List.count_cons_self, Nat.mul_succ]
      omega
    | close =>
      rw [List.count_cons_of_ne (by decide)] at bound
      have next : depth - 1 ≤ depth' + more := by omega
      have rest := ih next bound deepest
      rw [depthsFrom, List.count_cons_of_ne (by decide)]
      exact rest
  | @cons_cons xs ys event fewer ih =>
    have counts := fewer.count_le .control
    cases event with
    | control =>
      rw [List.count_cons_self, List.count_cons_self] at bound
      obtain ⟨first, deepest⟩ := List.forall_mem_cons.mp deepest
      have next : depth + 1 ≤ depth' + 1 + more := by omega
      have rest := ih next (by omega) deepest
      rw [depthsFrom, depthsFrom, List.sum_cons, List.sum_cons, List.count_cons_self,
        List.count_cons_self, Nat.mul_succ, Nat.mul_succ, Nat.mul_succ]
      omega
    | close =>
      rw [List.count_cons_of_ne (by decide), List.count_cons_of_ne (by decide)] at bound
      have next : depth - 1 ≤ depth' - 1 + more := by omega
      have rest := ih next bound deepest
      rw [depthsFrom, depthsFrom, List.count_cons_of_ne (by decide),
        List.count_cons_of_ne (by decide)]
      exact rest

/- The events of code and those of directives. -/

theorem events_without_directives (lines : List (List Char)) :
    (nestingEvents (withoutDirectives lines)).Sublist (nestingEvents lines) :=
  List.filter_sublist.flatMap _

theorem events_counted (lines : List (List Char)) (event : NestingEvent) :
    (nestingEvents lines).count event = (nestingEvents (withoutDirectives lines)).count event +
      (nestingEvents (directiveLines lines)).count event := by
  have parts : (directiveLines lines ++ withoutDirectives lines).Perm lines :=
    List.filter_append_perm isPreprocessor lines
  have counted := (parts.flatMap_right fun line =>
    (Pattern.allMatches controlOrClose line).map fun found =>
      if found.text = ['}'] then NestingEvent.close else .control).count_eq event
  rw [List.flatMap_append, List.count_append] at counted
  unfold nestingEvents
  omega

theorem keyword_counted (word : String) (lines : List (List Char)) :
    countKeyword word lines =
      countKeyword word (withoutDirectives lines) + countKeyword word (directiveLines lines) := by
  unfold countKeyword withoutDirectives directiveLines
  simp only [sum_of_eq]
  induction lines with
  | nil => rfl
  | cons line lines ih =>
    rw [List.map_cons, List.sum_cons, ih, List.filter_cons, List.filter_cons]
    cases isPreprocessor line with
    | true =>
      simp only [Bool.not_true, Bool.false_eq_true, if_false, if_true, List.map_cons, List.sum_cons]
      omega
    | false =>
      simp only [Bool.not_false, Bool.false_eq_true, if_false, if_true, List.map_cons,
        List.sum_cons]
      omega

theorem decisions_of_code (s : Source.Prepared) :
    decisionCount { s with maskedLines := withoutDirectives s.maskedLines } = decisionCount s := by
  unfold decisionCount withoutDirectives
  simp only [List.filter_filter, Bool.and_self]

/-- The words of directives count like those of code, with a parenthesis as statements and in any
case as levels that most directives never close. What the directives open and close bounds how far
the measures of a file are from those of its code. Decisions are counted in the code only. -/
theorem directives_count_as_code (lines : List (List Char)) :
    (∀ word, countKeyword word lines =
        countKeyword word (withoutDirectives lines) + countKeyword word (directiveLines lines)) ∧
      maxOf (nestingDepths lines) ≤
        maxOf (nestingDepths (withoutDirectives lines)) + levelsOpened (directiveLines lines) ∧
      maxOf (nestingDepths (withoutDirectives lines)) ≤
        maxOf (nestingDepths lines) + levelsClosed (directiveLines lines) ∧
      cognitiveComplexity (withoutDirectives lines) + levelsOpened (directiveLines lines) ≤
        cognitiveComplexity lines +
          levelsClosed (directiveLines lines) * levelsOpened (withoutDirectives lines) ∧
      cognitiveComplexity lines ≤ cognitiveComplexity (withoutDirectives lines) +
        levelsOpened (directiveLines lines) *
          (levelsOpened (withoutDirectives lines) + maxOf (nestingDepths lines)) ∧
      ∀ s : Source.Prepared,
        decisionCount { s with maskedLines := withoutDirectives s.maskedLines } =
          decisionCount s := by
  have fewer := events_without_directives lines
  have opened := events_counted lines .control
  have closed := events_counted lines .close
  have start : 0 ≤ 0 + 0 := Nat.le_refl 0
  refine ⟨fun word => keyword_counted word lines, ?_, ?_, ?_, ?_, decisions_of_code⟩
  · have deepest := deepest_with_more fewer start
    rw [deepest_of_lines, deepest_of_lines] at deepest
    unfold levelsOpened
    omega
  · have deepest := deepest_with_fewer fewer start
    rw [deepest_of_lines, deepest_of_lines] at deepest
    unfold levelsClosed
    omega
  · have bound : 0 + (nestingEvents lines).count .close ≤ levelsClosed (directiveLines lines) +
        (nestingEvents (withoutDirectives lines)).count .close := by
      unfold levelsClosed
      omega
    have sums := sum_with_fewer fewer start bound
    unfold cognitiveComplexity nestingDepths levelsOpened
    rw [sum_of_eq, sum_of_eq]
    omega
  · have bound : 0 + (nestingEvents lines).count .control ≤ levelsOpened (directiveLines lines) +
        (nestingEvents (withoutDirectives lines)).count .control := by
      unfold levelsOpened
      omega
    have sums := sum_with_more fewer start bound fun d => le_max_of
    rw [opened, Nat.mul_add] at sums
    unfold cognitiveComplexity levelsOpened nestingDepths at *
    rw [sum_of_eq, sum_of_eq, Nat.mul_add]
    have swapped := Nat.mul_comm ((nestingEvents (directiveLines lines)).count .control)
      (maxOf (depthsFrom 0 (nestingEvents lines)))
    omega

/-- The level that a condition opens is not closed where it ends: the statement after it is one of
two, and it is on the second level. -/
theorem condition_never_closed :
    let lines := ["#if (X)".toList, "if (a) \x7b".toList, "\x7d".toList, "#endif".toList]
    let code := ["if (a) \x7b".toList, "\x7d".toList]
    withoutDirectives lines = code ∧
      (countKeyword "if" lines = 2 ∧ countKeyword "if" code = 1) ∧
      (maxOf (nestingDepths lines) = 2 ∧ maxOf (nestingDepths code) = 1) ∧
      cognitiveComplexity lines = 3 ∧ cognitiveComplexity code = 1 := by
  decide +kernel

end Analysis

end Authorship
