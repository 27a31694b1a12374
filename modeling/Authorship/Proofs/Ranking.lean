import Authorship.Baseline.Profile
import Authorship.Proofs.ExactArithmetic
import Authorship.Proofs.Tables

/-
What a profile ranks. Sorting and cutting off only move and drop features, so a critical feature is
one that has a mean on both sides, and it is critical once.
-/
namespace Authorship

section Sorting

variable {α β : Type}

theorem place_perm (isBefore : α → α → Bool) (x : α) (placed : List α) :
    (placeLast isBefore x placed).Perm (x :: placed) := by
  induction placed with
  | nil => exact List.Perm.refl _
  | cons y rest ih =>
    rw [placeLast]
    split
    · exact (ih.cons y).trans (List.Perm.swap x y rest)
    · exact List.Perm.refl _

theorem fold_place_perm (isBefore : α → α → Bool) (xs placed : List α) :
    (xs.foldl (fun placed x => placeLast isBefore x placed) placed).Perm (xs ++ placed) := by
  induction xs generalizing placed with
  | nil => exact List.Perm.refl _
  | cons x rest ih =>
    have later := ih (placeLast isBefore x placed)
    have now := (place_perm isBefore x placed).append_left rest
    exact (later.trans now).trans List.perm_middle

theorem sort_perm (isBefore : α → α → Bool) (xs : List α) : (sortBy isBefore xs).Perm xs := by
  have folded := fold_place_perm isBefore xs []
  rw [List.append_nil] at folded
  exact (List.reverse_perm _).trans folded

theorem mem_sort (isBefore : α → α → Bool) (xs : List α) (x : α) :
    x ∈ sortBy isBefore xs ↔ x ∈ xs := (sort_perm isBefore xs).mem_iff

/- What a comparison must be like for sorting to put everything in order. -/
structure Orders (isBefore : α → α → Bool) : Prop where
  asymmetric {x y : α} : isBefore x y = true → isBefore y x = false
  transitive {x y z : α} : isBefore y x = false → isBefore z y = false → isBefore z x = false

theorem place_ordered {isBefore : α → α → Bool} (orders : Orders isBefore) (x : α)
    {placed : List α} (ordered : placed.Pairwise fun later earlier =>
      isBefore later earlier = false) :
    (placeLast isBefore x placed).Pairwise fun later earlier =>
      isBefore later earlier = false := by
  induction placed with
  | nil => exact List.pairwise_singleton _ x
  | cons y rest ih =>
    obtain ⟨first, more⟩ := List.pairwise_cons.mp ordered
    unfold placeLast
    split
    · rename_i before
      apply List.pairwise_cons.mpr
      constructor
      · intro z member
        rcases List.mem_cons.mp ((place_perm isBefore x rest).mem_iff.mp member) with rfl | later
        · exact orders.asymmetric before
        · exact first z later
      · exact ih more
    · rename_i after
      have notBefore : isBefore x y = false := Bool.eq_false_of_not_eq_true after
      apply List.pairwise_cons.mpr
      constructor
      · intro z member
        rcases List.mem_cons.mp member with rfl | later
        · exact notBefore
        · exact orders.transitive (first z later) notBefore
      · exact ordered

theorem fold_place_ordered {isBefore : α → α → Bool} (orders : Orders isBefore) (xs : List α)
    {placed : List α} (ordered : placed.Pairwise fun later earlier =>
      isBefore later earlier = false) :
    (xs.foldl (fun placed x => placeLast isBefore x placed) placed).Pairwise
      fun later earlier => isBefore later earlier = false := by
  induction xs generalizing placed with
  | nil => exact ordered
  | cons x rest ih => exact ih (place_ordered orders x ordered)

theorem sort_ordered {isBefore : α → α → Bool} (orders : Orders isBefore) (xs : List α) :
    (sortBy isBefore xs).Pairwise fun earlier later => isBefore later earlier = false := by
  unfold sortBy
  apply List.pairwise_reverse.mpr
  exact fold_place_ordered orders xs List.Pairwise.nil

section LargerFirst

variable {κ : Type} [LinearOrder κ] [DecidableRel ((· < ·) : κ → κ → Prop)]

theorem larger_first_iff (key : α → κ) (name : α → String) (x y : α) :
    largerFirst key name x y = true ↔ key y < key x ∨ key x = key y ∧ name x < name y := by
  unfold largerFirst
  rcases lt_trichotomy (key x) (key y) with less | same | greater
  · simp [less, less.not_gt, less.ne]
  · simp [same]
  · simp [greater]

theorem larger_first_orders (key : α → κ) (name : α → String) :
    Orders (largerFirst key name) := by
  constructor
  · intro x y before
    apply Bool.eq_false_of_not_eq_true
    rw [larger_first_iff] at before ⊢
    rintro (greater | ⟨same, earlier⟩)
    · rcases before with greater' | ⟨same', -⟩
      · exact lt_asymm greater greater'
      · exact greater.ne same'
    · rcases before with greater' | ⟨-, earlier'⟩
      · exact greater'.ne same
      · exact String.lt_asymm earlier earlier'
  · intro x y z notBefore notBefore'
    rw [← Bool.not_eq_true, larger_first_iff, not_or, not_lt, not_and, String.not_lt] at *
    obtain ⟨most, named⟩ := notBefore
    obtain ⟨most', named'⟩ := notBefore'
    constructor
    · exact most'.trans most
    · intro same
      have first : key y = key x := le_antisymm most (same ▸ most')
      exact String.le_trans (named first) (named' (same.trans first.symm))

theorem sort_larger_first (key : α → κ) (name : α → String) {xs : List α}
    (distinct : (xs.map name).Nodup) :
    (sortBy (largerFirst key name) xs).Pairwise fun x later =>
      key later < key x ∨ key x = key later ∧ name x < name later := by
  have sorted := sort_ordered (larger_first_orders key name) xs
  have named := ((sort_perm (largerFirst key name) xs).map name).nodup_iff.mpr distinct
  apply (sorted.and (List.pairwise_map.mp named)).imp
  intro x later both
  obtain ⟨notBefore, other⟩ := both
  rw [← Bool.not_eq_true, larger_first_iff, not_or, not_lt, not_and] at notBefore
  obtain ⟨most, notEarlier⟩ := notBefore
  rcases lt_or_eq_of_le most with less | same
  · left
    exact less
  · right
    exact ⟨same.symm, name_after (notEarlier same) other.symm⟩

end LargerFirst

/- Sorting does not see what the comparison does not see. -/

variable {isBefore : α → α → Bool} {isBefore' : β → β → Bool} {f : α → β}

theorem place_map (same : ∀ x y, isBefore' (f x) (f y) = isBefore x y) (x : α)
    (placed : List α) :
    placeLast isBefore' (f x) (placed.map f) = (placeLast isBefore x placed).map f := by
  induction placed with
  | nil => rfl
  | cons y rest ih =>
    rw [List.map_cons, placeLast, placeLast, same, ih]
    split <;> rfl

theorem fold_place_map (same : ∀ x y, isBefore' (f x) (f y) = isBefore x y)
    (xs placed : List α) :
    (xs.map f).foldl (fun placed x => placeLast isBefore' x placed) (placed.map f) =
      (xs.foldl (fun placed x => placeLast isBefore x placed) placed).map f := by
  induction xs generalizing placed with
  | nil => rfl
  | cons x rest ih =>
    rw [List.map_cons, List.foldl_cons, List.foldl_cons, place_map same, ih]

theorem sort_map (same : ∀ x y, isBefore' (f x) (f y) = isBefore x y) (xs : List α) :
    sortBy isBefore' (xs.map f) = (sortBy isBefore xs).map f := by
  have folded := fold_place_map same xs []
  rw [List.map_nil] at folded
  rw [sortBy, sortBy, folded, List.map_reverse]

theorem larger_first_map {κ : Type} [LT κ] [DecidableRel ((· < ·) : κ → κ → Prop)]
    {key : α → κ} {key' : β → κ} {name : α → String} {name' : β → String}
    (sameKey : ∀ x, key' (f x) = key x) (sameName : ∀ x, name' (f x) = name x) (x y : α) :
    largerFirst key' name' (f x) (f y) = largerFirst key name x y := by
  rw [largerFirst, largerFirst, sameKey, sameKey, sameName, sameName]

/- Sorting sees only how the elements of a list compare with each other. -/
theorem sort_alike {isBefore isBefore' : α → α → Bool} {xs : List α}
    (same : ∀ x ∈ xs, ∀ y ∈ xs, isBefore x y = isBefore' x y) :
    sortBy isBefore xs = sortBy isBefore' xs := by
  have within (before : α → α → Bool) : sortBy before xs =
      (sortBy (fun x y : { x // x ∈ xs } => before x y) xs.attach).map Subtype.val := by
    have mapped : sortBy before (xs.attach.map Subtype.val) =
        (sortBy (fun x y : { x // x ∈ xs } => before x y) xs.attach).map Subtype.val :=
      sort_map (fun _ _ => rfl) xs.attach
    rwa [List.attach_map_subtype_val] at mapped
  have alike : (fun x y : { x // x ∈ xs } => isBefore x y) =
      fun x y : { x // x ∈ xs } => isBefore' x y := by
    funext x y
    exact same x x.2 y y.2
  rw [within isBefore, within isBefore', alike]

end Sorting

namespace Baseline

open Feature Scalar

variable {α : Type}

namespace Stats

theorem mem_paired (s : Stats α) (name : String) (ai human : α) :
    (name, ai, human) ∈ s.paired ↔ s.ai.get? name = some ai ∧ s.human.get? name = some human := by
  rw [paired, List.mem_filterMap, ← Table.mem_entries s.ai]
  constructor
  · rintro ⟨⟨n, x⟩, member, joined⟩
    obtain ⟨y, found, same⟩ := Option.map_eq_some_iff.mp joined
    simp only [Prod.mk.injEq] at same
    obtain ⟨rfl, rfl, rfl⟩ := same
    exact ⟨member, found⟩
  · rintro ⟨member, found⟩
    exact ⟨(name, ai), member, by simp [found]⟩

theorem paired_ascending (s : Stats α) : Ascending s.paired := by
  refine List.Pairwise.filterMap _ ?_ s.ai.ascending
  rintro ⟨n, x⟩ ⟨n', x'⟩ before joined member joined' member'
  obtain ⟨y, -, rfl⟩ := Option.map_eq_some_iff.mp member
  obtain ⟨y', -, rfl⟩ := Option.map_eq_some_iff.mp member'
  exact before

end Stats

namespace Profile

variable [Scalar α]

theorem mem_ranked (stats : Stats α) (name : String) (ai human : α) :
    (name, ai, human) ∈ ranked stats ↔
      (stats.ai.get? name = some ai ∧ stats.human.get? name = some human) ∧
        (ai == human) = false := by
  rw [ranked, mem_sort, List.mem_filter, Stats.mem_paired, Bool.not_eq_true']

theorem ranked_names_distinct (stats : Stats α) : ((ranked stats).map (·.1)).Nodup := by
  rw [ranked, ((sort_perm _ _).map _).nodup_iff]
  apply (List.filter_sublist.map _).nodup
  exact ascending_names stats.paired_ascending

theorem names_of_rank (rank : Nat) (found : List (String × α × α)) :
    (rankFrom rank found).map (·.name) = found.map (·.1) := by
  induction found generalizing rank with
  | nil => rfl
  | cons first rest ih =>
    rw [rankFrom, List.map_cons, List.map_cons, ih]
    rfl

theorem mem_rank_from {rank : Nat} {found : List (String × α × α)} {c : CriticalFeature α}
    (member : c ∈ rankFrom rank found) :
    ∃ place name ai human, (name, ai, human) ∈ found ∧ c = criticalAt place name ai human := by
  induction found generalizing rank with
  | nil => exact absurd member List.not_mem_nil
  | cons first rest ih =>
    obtain ⟨name, ai, human⟩ := first
    rcases List.mem_cons.mp member with here | later
    · exact ⟨rank, name, ai, human, List.mem_cons_self, here⟩
    · obtain ⟨place, name', ai', human', inside, made⟩ := ih later
      exact ⟨place, name', ai', human', List.mem_cons_of_mem _ inside, made⟩

theorem critical_names_distinct (stats : Stats α) (topCount : Nat) :
    ((ofStats stats topCount).critical.map (·.name)).Nodup := by
  have names := names_of_rank 0 ((ranked stats).take topCount)
  have kept := (List.take_sublist topCount (ranked stats)).map (·.1)
  rw [ofStats, names]
  exact kept.nodup (ranked_names_distinct stats)

end Profile

/- What there is to know of a critical feature. -/
structure RankedBy [Scalar α] (stats : Stats α) (c : CriticalFeature α) : Prop where
  aiMean : stats.ai.get? c.name = some c.aiMean
  humanMean : stats.human.get? c.name = some c.humanMean
  differ : (c.aiMean == c.humanMean) = false
  weight : ∃ rank, c.weight = rankWeight rank

theorem critical_is_ranked [Scalar α] {stats : Stats α} {topCount : Nat} {c : CriticalFeature α}
    (member : c ∈ (Profile.ofStats stats topCount).critical) : RankedBy stats c := by
  obtain ⟨place, name, ai, human, inside, rfl⟩ := Profile.mem_rank_from member
  obtain ⟨⟨aiMean, humanMean⟩, differ⟩ :=
    (Profile.mem_ranked stats name ai human).mp (List.mem_of_mem_take inside)
  exact ⟨aiMean, humanMean, differ, place, rfl⟩

theorem rank_weight_positive (rank : Nat) : 0 < (rankWeight rank : Rat) := by
  rw [rankWeight, exact_larger]
  refine lt_of_lt_of_le ?_ (le_max_right _ _)
  change (0 : Rat) < 0.05
  norm_num

theorem weight_positive {stats : Stats Rat} {c : CriticalFeature Rat} (ranked : RankedBy stats c) :
    0 < c.weight := by
  obtain ⟨rank, weight⟩ := ranked.weight
  rw [weight]
  exact rank_weight_positive rank

theorem critical_weights_positive (stats : Stats Rat) (topCount : Nat) :
    ∀ c ∈ (Profile.ofStats stats topCount).critical, 0 < c.weight := by
  intro c member
  exact weight_positive (critical_is_ranked member)

theorem spread_positive {stats : Stats Rat} {c : CriticalFeature Rat} (ranked : RankedBy stats c) :
    0 < c.spread := by
  rw [CriticalFeature.spread, exact_abs, abs_pos, sub_ne_zero]
  exact ne_of_beq_false ranked.differ

end Baseline

end Authorship
