import Authorship.Analysis.Complexity
import Authorship.Proofs.Totals
import Mathlib.Data.List.Infix
import Mathlib.Order.Bounds.Basic

/-
How deep control flow nests. The depth stops at zero, and so depends on all that came before; it is
the largest surplus of control words over closing braces in any run of events that ends where the
depth is taken. A deeper start makes no later depth less, so that lines put together nest at least
as deep as they do apart.
-/
namespace Authorship

namespace Lexicon

def stepDepth (depth : Nat) : NestingEvent → Nat
  | .control => depth + 1
  | .close => depth - 1

def depthAfter (depth : Nat) (events : List NestingEvent) : Nat := events.foldl stepDepth depth

def balance (events : List NestingEvent) : Int :=
  events.count NestingEvent.control - events.count NestingEvent.close

variable {events : List NestingEvent} {event : NestingEvent}

theorem depth_after_append (depth : Nat) (first second : List NestingEvent) :
    depthAfter depth (first ++ second) = depthAfter (depthAfter depth first) second :=
  List.foldl_append

theorem depths_append (depth : Nat) (first second : List NestingEvent) :
    depthsFrom depth (first ++ second) =
      depthsFrom depth first ++ depthsFrom (depthAfter depth first) second := by
  induction first generalizing depth with
  | nil => rfl
  | cons event first ih =>
    cases event with
    | control => exact congrArg ((depth + 1) :: ·) (ih (depth + 1))
    | close => exact ih (depth - 1)

theorem depths_length (depth : Nat) (events : List NestingEvent) :
    (depthsFrom depth events).length = events.count .control := by
  induction events generalizing depth with
  | nil => rfl
  | cons event events ih =>
    cases event with
    | control => simp [depthsFrom, ih]
    | close => simp [depthsFrom, ih]

theorem take_to_event {k : Nat} (here : events[k]? = some event) :
    events.take (k + 1) = events.take k ++ [event] := by
  obtain ⟨inside, same⟩ := List.getElem?_eq_some_iff.mp here
  rw [List.take_succ_eq_append_getElem inside, same]

/-- The depth after a control word is reported next to those of the control words before it. -/
theorem depth_reported {k : Nat} (depth : Nat) (here : events[k]? = some .control) :
    (depthsFrom depth events)[(events.take k).count .control]? =
      some (depthAfter depth (events.take (k + 1))) := by
  have split : events = events.take k ++ .control :: events.drop (k + 1) := by
    have parts := List.take_append_drop (k + 1) events
    rw [take_to_event here, List.append_assoc] at parts
    exact parts.symm
  have reported : depthsFrom depth events = depthsFrom depth (events.take k) ++
      depthsFrom (depthAfter depth (events.take k)) (.control :: events.drop (k + 1)) := by
    rw [← depths_append, ← split]
  rw [reported, ← depths_length depth, List.getElem?_append_right (Nat.le_refl _), Nat.sub_self,
    take_to_event here, depth_after_append]
  rfl

/-- The surpluses of the runs that end with the last event, the empty run included. -/
def surpluses (events : List NestingEvent) : Set Int :=
  {b | ∃ run, run <:+ events ∧ balance run = b}

theorem balance_append (first second : List NestingEvent) :
    balance (first ++ second) = balance first + balance second := by
  simp only [balance, List.count_append]
  omega

theorem surplus_after_iff {b : Int} :
    b ∈ surpluses (events ++ [event]) ↔ b = 0 ∨ b - balance [event] ∈ surpluses events := by
  constructor
  · rintro ⟨run, suffix, rfl⟩
    rcases List.suffix_concat_iff.mp suffix with rfl | ⟨run, rfl, inside⟩
    · exact Or.inl rfl
    · refine Or.inr ⟨run, inside, ?_⟩
      rw [balance_append]
      omega
  · rintro (rfl | ⟨run, suffix, same⟩)
    · exact ⟨[], List.nil_suffix, rfl⟩
    · refine ⟨run ++ [event], List.suffix_concat_iff.mpr (Or.inr ⟨run, rfl, suffix⟩), ?_⟩
      rw [balance_append]
      omega

/-- What a depth is the greatest of stays so from event to event. A brace at depth zero is lost, and
there the empty run takes its place. -/
theorem greatest_after {depth : Nat} (greatest : IsGreatest (surpluses events) (depth : Int))
    (event : NestingEvent) :
    IsGreatest (surpluses (events ++ [event])) (stepDepth depth event : Int) := by
  obtain ⟨attained, bound⟩ := greatest
  cases event with
  | control =>
    have one : balance [.control] = 1 := rfl
    constructor
    · rw [surplus_after_iff, one]
      right
      simpa [stepDepth] using attained
    · intro b member
      rw [surplus_after_iff, one] at member
      simp only [stepDepth]
      rcases member with rfl | member
      · omega
      · have before := bound member
        omega
  | close =>
    have one : balance [.close] = -1 := rfl
    constructor
    · rw [surplus_after_iff, one]
      simp only [stepDepth]
      by_cases ground : depth = 0
      · left
        omega
      · right
        have back : ((depth - 1 : Nat) : Int) - -1 = depth := by omega
        rwa [back]
    · intro b member
      rw [surplus_after_iff, one] at member
      simp only [stepDepth]
      rcases member with rfl | member
      · omega
      · have before := bound member
        omega

theorem depth_is_greatest (events : List NestingEvent) :
    IsGreatest (surpluses events) (depthAfter 0 events : Int) := by
  induction events using List.reverseRecOn with
  | nil =>
    refine ⟨⟨[], List.suffix_rfl, rfl⟩, ?_⟩
    rintro b ⟨run, suffix, rfl⟩
    rw [List.suffix_nil.mp suffix]
    rfl
  | append_singleton events event ih =>
    rw [depth_after_append]
    exact greatest_after ih event

def eventsBetween (first last : Nat) (events : List NestingEvent) : List NestingEvent :=
  (events.take (last + 1)).drop first

/-- At a control word the empty run is not the best one, so that those with at least one event are
enough. -/
theorem depth_at_control {k : Nat} (here : events[k]? = some .control) :
    IsGreatest {b | ∃ j ≤ k, balance (eventsBetween j k events) = b}
      (depthAfter 0 (events.take (k + 1)) : Int) := by
  have inside : k < events.length := (List.getElem?_eq_some_iff.mp here).1
  have length : (events.take (k + 1)).length = k + 1 := List.length_take_of_le inside
  have positive : 0 < depthAfter 0 (events.take (k + 1)) := by
    rw [take_to_event here, depth_after_append]
    exact Nat.succ_pos _
  obtain ⟨⟨run, suffix, attained⟩, bound⟩ := depth_is_greatest (events.take (k + 1))
  constructor
  · refine ⟨(events.take (k + 1)).length - run.length, ?_, ?_⟩
    · have some : run ≠ [] := by
        rintro rfl
        have empty : balance [] = 0 := rfl
        omega
      have := List.length_pos_iff.mpr some
      omega
    · rw [eventsBetween, ← List.suffix_iff_eq_drop.mp suffix]
      exact attained
  · rintro b ⟨j, _, rfl⟩
    exact bound ⟨_, List.drop_suffix j _, rfl⟩

variable {depth depth' : Nat}

theorem step_mono (le : depth ≤ depth') (event : NestingEvent) :
    stepDepth depth event ≤ stepDepth depth' event := by
  cases event with
  | control =>
    simp only [stepDepth]
    omega
  | close =>
    simp only [stepDepth]
    omega

theorem depths_mono (le : depth ≤ depth') (events : List NestingEvent) :
    List.Forall₂ (· ≤ ·) (depthsFrom depth events) (depthsFrom depth' events) := by
  induction events generalizing depth depth' with
  | nil => exact .nil
  | cons event events ih =>
    have next := step_mono le event
    cases event with
    | control => exact .cons next (ih next)
    | close => exact ih next

theorem nesting_of_append (a b : List (List Char)) : nestingDepths (a ++ b) =
    nestingDepths a ++ depthsFrom (depthAfter 0 (nestingEvents a)) (nestingEvents b) := by
  unfold nestingDepths nestingEvents
  rw [List.flatMap_append, depths_append]

end Lexicon

namespace Analysis

open Lexicon

theorem cognitive_superadditive (a b : List (List Char)) :
    cognitiveComplexity a + cognitiveComplexity b ≤ cognitiveComplexity (a ++ b) := by
  have deeper := (depths_mono (Nat.zero_le (depthAfter 0 (nestingEvents a)))
    (nestingEvents b)).sum_le_sum
  unfold cognitiveComplexity
  rw [nesting_of_append, sum_of_eq, sum_of_eq, sum_of_eq, List.sum_append]
  exact Nat.add_le_add_left deeper _

theorem nesting_of_parts_le (a b : List (List Char)) :
    maxOf (nestingDepths a) ≤ maxOf (nestingDepths (a ++ b)) ∧
      maxOf (nestingDepths b) ≤ maxOf (nestingDepths (a ++ b)) := by
  have deeper := max_mono (depths_mono (Nat.zero_le (depthAfter 0 (nestingEvents a)))
    (nestingEvents b))
  rw [nesting_of_append, max_of_append]
  exact ⟨Nat.le_max_left _ _, deeper.trans (Nat.le_max_right _ _)⟩

/-- Each control word, and nothing else, has its depth reported: the largest surplus of control
words over closing braces in the runs of events that end with it. Together, lines come to no less
than they do apart, in cognitive complexity and in their deepest nesting. -/
theorem nesting_is_largest_surplus :
    (∀ lines, (nestingDepths lines).length = (nestingEvents lines).count .control ∧
      ∀ k, (nestingEvents lines)[k]? = some .control → ∃ depth : Nat,
        (nestingDepths lines)[((nestingEvents lines).take k).count .control]? = some depth ∧
          IsGreatest {b | ∃ j ≤ k, balance (eventsBetween j k (nestingEvents lines)) = b}
            (depth : Int)) ∧
      ∀ a b, cognitiveComplexity a + cognitiveComplexity b ≤ cognitiveComplexity (a ++ b) ∧
        maxOf (nestingDepths a) ≤ maxOf (nestingDepths (a ++ b)) ∧
        maxOf (nestingDepths b) ≤ maxOf (nestingDepths (a ++ b)) := by
  constructor
  · intro lines
    refine ⟨depths_length 0 (nestingEvents lines), ?_⟩
    intro k here
    exact ⟨_, depth_reported 0 here, depth_at_control here⟩
  · intro a b
    exact ⟨cognitive_superadditive a b, nesting_of_parts_le a b⟩

/-- The first brace closes nothing and the second one ends the loop, so that the last word opens the
second level. -/
theorem stray_brace_forgotten :
    let lines := ["\x7d if (a) \x7b".toList, "for (;;) \x7b \x7d".toList, "while (b)".toList]
    (nestingEvents lines)[4]? = some .control ∧ ∃ depth : Nat,
      (nestingDepths lines)[((nestingEvents lines).take 4).count .control]? = some depth ∧
        IsGreatest {b | ∃ j ≤ 4, balance (eventsBetween j 4 (nestingEvents lines)) = b}
          (depth : Int) := by
  intro lines
  have here : (nestingEvents lines)[4]? = some .control := by decide +kernel
  exact ⟨here, (nesting_is_largest_surplus.1 lines).2 4 here⟩

end Analysis

end Authorship
