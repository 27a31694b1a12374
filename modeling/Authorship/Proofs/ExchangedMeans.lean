import Authorship.Proofs.Contributions
import Authorship.Proofs.DoubleSymmetry

/-
The two corpora exchanged. Nothing that is done with two means minds which of them comes first,
but for the direction. A profile of exchanged means therefore ranks the same features in the same
order, and in exact arithmetic every vote is as strong for the other side.
-/
namespace Authorship

namespace Scalar

/- What the ranking asks of the arithmetic. -/
class EvenHanded (α : Type) [Scalar α] : Prop where
  distance (x y : α) : abs (x - y) = abs (y - x)
  sizes (x y : α) : abs x + abs y = abs y + abs x
  same (x y : α) : (x == y) = (y == x)
  order {x y : α} (differ : (x == y) = false) :
    decide (x < y) = (!decide (y < x) && !(isNaN x || isNaN y))

instance : EvenHanded Float where
  distance := distance_comm
  sizes _ _ := double_add_comm _ _
  same := double_beq_comm
  order := by
    intro x y differ
    change decide (x < y) = (!decide (y < x) && !(x.isNaN || y.isNaN))
    by_cases numbers : (x.isNaN || y.isNaN) = false
    · obtain ⟨isNumber, isNumber'⟩ := Bool.or_eq_false_iff.mp numbers
      rw [numbers, Bool.not_false, Bool.and_true, ← decide_not]
      exact decide_eq_decide.mpr (double_lt_iff_not_gt isNumber isNumber' differ)
    · have notLess : ¬ x < y := fun less => numbers (numbers_of_double_lt less)
      rw [Bool.eq_true_of_not_eq_false numbers, Bool.not_true, Bool.and_false]
      exact decide_eq_false notLess

instance : EvenHanded Rat where
  distance x y := by rw [exact_abs, exact_abs, abs_sub_comm]
  sizes _ _ := add_comm _ _
  same _ _ := Bool.beq_comm
  order := by
    intro x y differ
    have other : x ≠ y := ne_of_beq_false differ
    rcases lt_or_gt_of_ne other with less | greater
    · simp [less, less.le, isNaN]
    · simp [greater, greater.le, isNaN]

end Scalar

namespace Baseline

open Scalar

variable {α : Type}

def Stats.exchanged (s : Stats α) : Stats α := ⟨s.human, s.ai⟩

/- The direction turns around. NaN, which no statistics file holds, is higher than nothing. -/
def CriticalFeature.turned [Scalar α] (c : CriticalFeature α) : CriticalFeature α :=
  { c with
    aiMean := c.humanMean
    humanMean := c.aiMean
    isHigherInAi := !c.isHigherInAi && !(isNaN c.aiMean || isNaN c.humanMean) }

theorem turned_direction [Scalar α] {c : CriticalFeature α}
    (numbers : (isNaN c.aiMean || isNaN c.humanMean) = false) :
    c.turned.isHigherInAi = !c.isHigherInAi := by
  rw [CriticalFeature.turned, numbers, Bool.not_false, Bool.and_true]

/- A name with its two means in the other order. -/
def exchangePair : String × α × α → String × α × α := Prod.map id Prod.swap

theorem paired_exchanged (s : Stats α) : s.exchanged.paired = s.paired.map exchangePair := by
  apply ascending_ext s.exchanged.paired_ascending
  · exact List.pairwise_map.mpr s.paired_ascending
  · rintro ⟨name, ai, human⟩
    rw [Stats.mem_paired, List.mem_map]
    constructor
    · rintro ⟨found, found'⟩
      exact ⟨(name, human, ai), (s.mem_paired name human ai).mpr ⟨found', found⟩, rfl⟩
    · rintro ⟨⟨name', human', ai'⟩, member, same⟩
      obtain ⟨rfl, rfl, rfl⟩ : name' = name ∧ ai' = ai ∧ human' = human := by
        simpa [exchangePair] using same
      exact ((s.mem_paired name' human' ai').mp member).symm

variable [Scalar α] [EvenHanded α]

theorem effect_size_comm (ai human : α) : effectSize human ai = effectSize ai human := by
  rw [effectSize, effectSize, EvenHanded.distance human ai, EvenHanded.sizes human ai]

namespace Profile

theorem ranked_exchanged (stats : Stats α) :
    ranked stats.exchanged = (ranked stats).map exchangePair := by
  have differ : (fun (e : String × α × α) => !(e.2.1 == e.2.2)) ∘ exchangePair =
      fun e => !(e.2.1 == e.2.2) := by
    funext e
    exact congrArg (!·) (EvenHanded.same e.2.2 e.2.1)
  rw [ranked, ranked, paired_exchanged, List.filter_map, differ]
  apply sort_map
  apply larger_first_map
  · intro e
    exact effect_size_comm e.2.1 e.2.2
  · intro e
    rfl

theorem critical_at_exchanged (rank : Nat) (name : String) {ai human : α}
    (differ : (ai == human) = false) :
    criticalAt rank name human ai = (criticalAt rank name ai human).turned := by
  simp only [criticalAt, CriticalFeature.turned, effect_size_comm, EvenHanded.order differ]

theorem rank_from_exchanged (rank : Nat) {found : List (String × α × α)}
    (differ : ∀ e ∈ found, (e.2.1 == e.2.2) = false) :
    rankFrom rank (found.map exchangePair) = (rankFrom rank found).map (·.turned) := by
  induction found generalizing rank with
  | nil => rfl
  | cons first rest ih =>
    obtain ⟨name, ai, human⟩ := first
    rw [List.forall_mem_cons] at differ
    have here := critical_at_exchanged rank name differ.1
    have later := ih (rank + 1) differ.2
    simp only [List.map_cons, rankFrom]
    rw [later, ← here]
    rfl

theorem critical_exchanged (stats : Stats α) (topCount : Nat) :
    (ofStats stats.exchanged topCount).critical =
      (ofStats stats topCount).critical.map (·.turned) := by
  have differ : ∀ e ∈ (ranked stats).take topCount, (e.2.1 == e.2.2) = false := by
    rintro ⟨name, ai, human⟩ member
    exact ((mem_ranked stats name ai human).mp (List.mem_of_mem_take member)).2
  rw [ofStats, ofStats, ranked_exchanged, ← List.map_take]
  exact rank_from_exchanged 0 differ

end Profile

theorem documented_numbers {stats : Stats Float} (documented : stats.Documented) {topCount : Nat}
    {c : CriticalFeature Float} (member : c ∈ (Profile.ofStats stats topCount).critical) :
    (c.aiMean.isNaN || c.humanMean.isNaN) = false := by
  have ranked := critical_is_ranked member
  have ai : c.aiMean.isFinite = true := (documented .ai c.name c.aiMean ranked.aiMean).2
  have human : c.humanMean.isFinite = true :=
    (documented .human c.name c.humanMean ranked.humanMean).2
  rw [finite_is_number ai, finite_is_number human, Bool.or_false]

end Baseline

namespace Detection

open Baseline Feature Scalar

theorem turned_spread (c : CriticalFeature Rat) : c.turned.spread = c.spread :=
  EvenHanded.distance c.humanMean c.aiMean

theorem score_of_turned {c : CriticalFeature Rat} (apart : 0 < c.spread) (x : Rat) :
    featureScore c.turned x = 1 - featureScore c x := by
  have apart' : 0 < c.turned.spread := by rwa [turned_spread]
  have ai : c.turned.aiMean = c.humanMean := rfl
  have human : c.turned.humanMean = c.aiMean := rfl
  rw [exact_feature_score apart', exact_feature_score apart, turned_spread, ai, human]
  rcases lt_trichotomy |x - c.aiMean| |x - c.humanMean| with nearer | same | nearer
  · rw [if_neg nearer.not_gt, if_pos nearer, if_pos nearer]
    ring
  · rw [same, if_neg (lt_irrefl _), if_neg (lt_irrefl _)]
    norm_num
  · rw [if_pos nearer, if_neg nearer.not_gt, if_pos nearer]
    ring

namespace BaselineDetector

theorem present_turned (features : FeatureVector Rat) {p q : Profile Rat}
    (turned : q.critical = p.critical.map (·.turned)) :
    present features q = (present features p).map (Prod.map (·.turned) id) := by
  rw [present, present, turned, List.filterMap_map, List.map_filterMap]
  apply List.filterMap_congr
  intro c _
  rw [Option.map_map]
  rfl

theorem total_weight_turned (features : FeatureVector Rat) {p q : Profile Rat}
    (turned : q.critical = p.critical.map (·.turned)) :
    totalWeight features q = totalWeight features p := by
  rw [totalWeight, totalWeight, present_turned features turned, List.map_map]
  rfl

theorem term_of_turned (d : BaselineDetector Rat) (total : Rat) {c : CriticalFeature Rat}
    (apart : 0 < c.spread) (x : Rat) :
    (d.criticalTerm total c.turned x).value = -(d.criticalTerm total c x).value := by
  have weight : c.turned.weight = c.weight := rfl
  simp only [criticalTerm, score_of_turned apart, exact_half, weight]
  ring

def keyed (terms : List (Contribution Rat)) : List (String × Rat) :=
  terms.map fun term => (term.key, term.value)

theorem critical_entries_turned (d : BaselineDetector Rat) (features : FeatureVector Rat)
    (stats : Stats Rat) (topCount : Nat) :
    keyed (d.criticalTerms features (Profile.ofStats stats.exchanged topCount)) =
      (keyed (d.criticalTerms features (Profile.ofStats stats topCount))).map
        fun entry => (entry.1, -entry.2) := by
  have turned := Profile.critical_exchanged stats topCount
  rw [critical_terms_eq d (critical_weights_positive stats.exchanged topCount),
    critical_terms_eq d (critical_weights_positive stats topCount),
    total_weight_turned features turned, present_turned features turned]
  simp only [keyed, List.map_map]
  apply List.map_congr_left
  rintro ⟨c, x⟩ member
  have apart := spread_positive (critical_is_ranked (mem_present.mp member).1)
  exact Prod.ext rfl (term_of_turned d _ apart x)

theorem stored_contribution (d : BaselineDetector Rat) {features : FeatureVector Rat}
    (usable : Usable features) (p : Profile Rat) (key : String) :
    (d.detect features (some p)).contributions.get? key =
      ((Table.ofList (keyed (d.secondaryTerms (.measure features)))).get? key).or
        ((Table.ofList (keyed (d.criticalTerms features p))).get? key) := by
  rw [d.detect_usable usable, ← Table.get_of_append, keyed, keyed, ← List.map_append]
  rfl

end BaselineDetector

/- The critical features count for the other side in `b`, and the three other signals as in `a`. No
feature of the schema is called like one of those. -/
structure VotesTurned (names : List String) (a b : Assessment Rat) : Prop where
  votes : ∀ name ∈ names, name ∉ secondaryKeys →
    ∃ vote, a.contributions.get? name = some vote ∧ b.contributions.get? name = some (-vote)
  others : ∀ key ∈ secondaryKeys,
    ∃ x, a.contributions.get? key = some x ∧ b.contributions.get? key = some x

theorem votes_turned (d : BaselineDetector Rat) {features : FeatureVector Rat}
    (usable : Usable features) (stats : Stats Rat) (topCount : Nat) :
    let p := Profile.ofStats stats topCount
    VotesTurned (presentNames features (some p)) (d.detect features (some p))
      (d.detect features (some (Profile.ofStats stats.exchanged topCount))) := by
  intro p
  have turned := d.critical_entries_turned features stats topCount
  have keys (terms : List (Contribution Rat)) :
      (BaselineDetector.keyed terms).map (·.1) = terms.map (·.key) := List.map_map
  constructor
  · intro name listed other
    have critical : name ∈ (BaselineDetector.keyed (d.criticalTerms features p)).map (·.1) := by
      rwa [keys, d.critical_keys features (critical_weights_positive stats topCount)]
    have none : (Table.ofList (BaselineDetector.keyed
        (d.secondaryTerms (.measure features)))).get? name = none := by
      rw [← Option.not_isSome_iff_eq_none, Table.some_of_list_iff, keys]
      exact other
    obtain ⟨vote, found⟩ :=
      Option.isSome_iff_exists.mp ((Table.some_of_list_iff _ name).mpr critical)
    refine ⟨vote, ?_, ?_⟩
    · rw [d.stored_contribution usable, none, Option.none_or, found]
    · rw [d.stored_contribution usable, none, Option.none_or, turned, Table.get_of_map, found]
      rfl
  · intro key secondary
    have stored : key ∈ (BaselineDetector.keyed
        (d.secondaryTerms (.measure features))).map (·.1) := by
      rwa [keys]
    obtain ⟨x, found⟩ := Option.isSome_iff_exists.mp ((Table.some_of_list_iff _ key).mpr stored)
    refine ⟨x, ?_, ?_⟩
    · rw [d.stored_contribution usable, found, Option.some_or]
    · rw [d.stored_contribution usable, found, Option.some_or]

/-- Exchanging the means of the two corpora keeps the critical features, their order, their effect
sizes and their weights, and turns every direction around. In exact arithmetic it negates the
contributions of the critical features and leaves the other three as they are. -/
theorem exchanged_means_turn_the_votes :
    (∀ (stats : Stats Float) (topCount : Nat),
      (Profile.ofStats stats.exchanged topCount).critical =
        (Profile.ofStats stats topCount).critical.map (·.turned)) ∧
    (∀ entries topCount, ∀ c ∈ (Profile.ofStats (Stats.ofEntries entries) topCount).critical,
      c.turned.isHigherInAi = !c.isHigherInAi) ∧
    ∀ (stats : Stats Rat) (topCount : Nat) (d : BaselineDetector Rat)
      (features : FeatureVector Rat), Usable features →
        let p := Profile.ofStats stats topCount
        let q := Profile.ofStats stats.exchanged topCount
        q.critical = p.critical.map (·.turned) ∧
          (∀ c ∈ p.critical, c.turned.isHigherInAi = !c.isHigherInAi) ∧
          VotesTurned (presentNames features (some p)) (d.detect features (some p))
            (d.detect features (some q)) := by
  refine ⟨Profile.critical_exchanged, ?_, ?_⟩
  · intro entries topCount c member
    exact turned_direction (documented_numbers (Stats.entries_documented entries) member)
  · intro stats topCount d features usable p q
    refine ⟨Profile.critical_exchanged stats topCount, ?_, votes_turned d usable stats topCount⟩
    intro c _
    exact turned_direction rfl

def commentsAndBranches : Stats Rat where
  ai := .ofList [("basic.comment_ratio", 0.066), ("basic.cyclomatic_complexity", 1.073)]
  human := .ofList [("basic.comment_ratio", 0.006), ("basic.cyclomatic_complexity", 3.493)]

def twelveLines : FeatureVector Rat :=
  .ofList [("basic.loc", 12), ("basic.comment_ratio", 0.066), ("basic.cyclomatic_complexity", 2.5)]

theorem comment_vote_turned :
    Usable twelveLines ∧
      let d : BaselineDetector Rat := .default
      let a := d.detect twelveLines (some (.ofStats commentsAndBranches 15))
      let b := d.detect twelveLines (some (.ofStats commentsAndBranches.exchanged 15))
      VotesTurned ["basic.comment_ratio", "basic.cyclomatic_complexity"] a b ∧
        a.contributions.get? "basic.comment_ratio" = some (2 / 13) ∧
        b.contributions.get? "basic.comment_ratio" = some (-(2 / 13)) := by
  have usable : Usable twelveLines := (signal_iff_usable _).mp (by decide +kernel)
  obtain ⟨-, -, inExact⟩ := exchanged_means_turn_the_votes
  obtain ⟨-, -, turned⟩ := inExact commentsAndBranches 15 .default twelveLines usable
  have names : presentNames twelveLines (some (Profile.ofStats commentsAndBranches 15)) =
      ["basic.comment_ratio", "basic.cyclomatic_complexity"] := by decide +kernel
  rw [names] at turned
  have voted : ((BaselineDetector.default : BaselineDetector Rat).detect twelveLines
      (some (.ofStats commentsAndBranches 15))).contributions.get? "basic.comment_ratio" =
      some (2 / 13) := by decide +kernel
  obtain ⟨vote, before, after⟩ := turned.votes "basic.comment_ratio" (by decide) (by decide)
  obtain rfl : vote = 2 / 13 := Option.some.inj (before.symm.trans voted)
  exact ⟨usable, turned, voted, after⟩

end Detection

end Authorship
