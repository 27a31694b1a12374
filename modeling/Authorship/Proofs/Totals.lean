import Authorship.Analysis.Structure
import Mathlib.Algebra.Order.BigOperators.Group.List
import Mathlib.Algebra.Order.Ring.Nat
import Mathlib.Data.Finset.Card

/- Counts put together: added up, and the largest of them. The members of a set are counted by its
size in any list that has them all and repeats nothing. -/
namespace Authorship

theorem sum_of_eq (counts : List Nat) : sumOf counts = counts.sum := rfl

theorem members_counted {β : Type} [DecidableEq β] (members : Finset β) {xs : List β}
    (once : xs.Nodup) (listed : ∀ x ∈ members, x ∈ xs) :
    xs.countP (· ∈ members) = members.card := by
  have kept : members = (xs.filter (· ∈ members)).toFinset := by
    ext x
    rw [List.mem_toFinset, List.mem_filter, decide_eq_true_iff]
    exact ⟨fun member => ⟨listed x member, member⟩, And.right⟩
  rw [List.countP_eq_length_filter, ← List.toFinset_card_of_nodup (once.filter _), ← kept]

namespace Analysis

theorem max_of_cons (n : Nat) (ns : List Nat) : maxOf (n :: ns) = max n (maxOf ns) := by
  have start (first second : Nat) :
      ns.foldl max (max first second) = max first (ns.foldl max second) := by
    induction ns generalizing second with
    | nil => rfl
    | cons n ns ih => rw [List.foldl_cons, List.foldl_cons, Nat.max_assoc, ih]
  unfold maxOf
  rw [List.foldl_cons, Nat.max_comm, start]

theorem max_of_append (ns ms : List Nat) : maxOf (ns ++ ms) = max (maxOf ns) (maxOf ms) := by
  induction ns with
  | nil => exact (Nat.zero_max _).symm
  | cons n ns ih => rw [List.cons_append, max_of_cons, max_of_cons, ih, Nat.max_assoc]

theorem max_mono {ns ms : List Nat} (le : List.Forall₂ (· ≤ ·) ns ms) : maxOf ns ≤ maxOf ms := by
  induction le with
  | nil => exact Nat.le_refl 0
  | cons first rest ih =>
    rw [max_of_cons, max_of_cons]
    omega

theorem le_max_of {ns : List Nat} {n : Nat} (member : n ∈ ns) : n ≤ maxOf ns := by
  induction ns with
  | nil => cases member
  | cons first ns ih =>
    rw [max_of_cons]
    rcases List.mem_cons.mp member with rfl | later
    · exact Nat.le_max_left _ _
    · exact (ih later).trans (Nat.le_max_right _ _)

end Analysis

end Authorship
