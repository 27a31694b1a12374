import Authorship.Proofs.Ranking

/-
Which features are critical. The features that separate the two corpora have one order, by effect
size and then by name, and a profile keeps the beginning of it. What is left out is therefore beaten
by everything that is kept, and a larger profile only adds to a smaller one.
-/
namespace Authorship.Baseline

open Scalar

variable {stats : Stats Rat}

def effectOf (feature : String × Rat × Rat) : Rat := effectSize feature.2.1 feature.2.2

def Outranks (feature other : String × Rat × Rat) : Prop :=
  effectOf other < effectOf feature ∨ effectOf feature = effectOf other ∧ feature.1 < other.1

structure Separates (stats : Stats Rat) (feature : String × Rat × Rat) : Prop where
  aiMean : stats.ai.get? feature.1 = some feature.2.1
  humanMean : stats.human.get? feature.1 = some feature.2.2
  differ : feature.2.1 ≠ feature.2.2

structure RankingOf (stats : Stats Rat) (order : List (String × Rat × Rat)) : Prop where
  complete : ∀ feature, feature ∈ order ↔ Separates stats feature
  ordered : order.Pairwise Outranks

theorem outranks_irrefl (feature : String × Rat × Rat) : ¬ Outranks feature feature := by
  rintro (larger | ⟨-, earlier⟩)
  · exact lt_irrefl _ larger
  · exact String.lt_irrefl _ earlier

theorem outranks_asymm {feature other : String × Rat × Rat} (first : Outranks feature other) :
    ¬ Outranks other feature := by
  intro second
  rcases first with larger | ⟨same, earlier⟩
  · rcases second with larger' | ⟨same', -⟩
    · exact lt_asymm larger larger'
    · exact larger.ne same'
  · rcases second with larger' | ⟨-, earlier'⟩
    · exact larger'.ne same
    · exact String.lt_asymm earlier earlier'

theorem ranking_unique {order order' : List (String × Rat × Rat)} (ranking : RankingOf stats order)
    (ranking' : RankingOf stats order') : order = order' := by
  have asymmetric : Std.Antisymm Outranks :=
    ⟨fun _ _ first second => absurd second (outranks_asymm first)⟩
  have irreflexive : Std.Irrefl Outranks := ⟨outranks_irrefl⟩
  apply List.Pairwise.eq_of_mem_iff ranking.ordered ranking'.ordered
  intro feature
  rw [ranking.complete, ranking'.complete]

theorem mem_ranked_iff (feature : String × Rat × Rat) :
    feature ∈ Profile.ranked stats ↔ Separates stats feature := by
  obtain ⟨name, ai, human⟩ := feature
  rw [Profile.mem_ranked, beq_eq_false_iff_ne]
  constructor
  · intro ⟨⟨aiMean, humanMean⟩, differ⟩
    exact ⟨aiMean, humanMean, differ⟩
  · intro separates
    exact ⟨⟨separates.aiMean, separates.humanMean⟩, separates.differ⟩

theorem ranked_is_ranking (stats : Stats Rat) : RankingOf stats (Profile.ranked stats) := by
  constructor
  · exact mem_ranked_iff
  · have distinct := ascending_names stats.paired_ascending
    exact sort_larger_first effectOf (·.1) ((List.filter_sublist.map _).nodup distinct)

/- The features of a profile, by their ranks. -/

def CriticalFeature.feature (c : CriticalFeature Rat) : String × Rat × Rat :=
  (c.name, c.aiMean, c.humanMean)

namespace Profile

theorem rank_from_at {α : Type} [Scalar α] (rank place : Nat) (found : List (String × α × α)) :
    (rankFrom rank found)[place]? =
      found[place]?.map fun feature =>
        criticalAt (rank + place) feature.1 feature.2.1 feature.2.2 := by
  induction found generalizing rank place with
  | nil => rfl
  | cons first rest ih =>
    cases place with
    | zero => rfl
    | succ place =>
      rw [rankFrom, List.getElem?_cons_succ, List.getElem?_cons_succ, ih, Nat.add_right_comm,
        Nat.add_assoc]

theorem rank_from_take (rank topCount : Nat) (found : List (String × Rat × Rat)) :
    rankFrom rank (found.take topCount) = (rankFrom rank found).take topCount := by
  induction found generalizing rank topCount with
  | nil => cases topCount <;> rfl
  | cons first rest ih =>
    cases topCount with
    | zero => rfl
    | succ topCount =>
      rw [List.take_succ_cons, rankFrom, rankFrom, List.take_succ_cons, ih]

theorem features_of_rank (rank : Nat) (found : List (String × Rat × Rat)) :
    (rankFrom rank found).map CriticalFeature.feature = found := by
  induction found generalizing rank with
  | nil => rfl
  | cons first rest ih =>
    rw [rankFrom, List.map_cons, ih]
    rfl

theorem critical_take (stats : Stats Rat) (topCount : Nat) :
    (ofStats stats topCount).critical = (rankFrom 0 (ranked stats)).take topCount :=
  rank_from_take 0 topCount (ranked stats)

theorem features_of_critical (stats : Stats Rat) (topCount : Nat) :
    (ofStats stats topCount).critical.map CriticalFeature.feature =
      (ranked stats).take topCount :=
  features_of_rank 0 _

theorem critical_prefix (stats : Stats Rat) {few many : Nat} (le : few ≤ many) :
    (ofStats stats few).critical <+: (ofStats stats many).critical := by
  rw [critical_take, critical_take]
  exact List.take_prefix_take_left le

end Profile

theorem exact_rank_weight (rank : Nat) :
    (rankWeight rank : Rat) = max 0.05 (0.20 - 0.01 * (rank : Rat)) := by
  unfold rankWeight
  rw [exact_larger, max_comm]
  rfl

theorem rank_weight_antitone {rank later : Nat} (le : rank ≤ later) :
    (rankWeight later : Rat) ≤ rankWeight rank := by
  have counted : (rank : Rat) ≤ later := Nat.cast_le.mpr le
  rw [exact_rank_weight, exact_rank_weight]
  apply max_le_max_left
  linarith

theorem exact_effect_size {ai human : Rat} (differ : ai ≠ human) :
    effectSize ai human = |ai - human| / ((|ai| + |human|) / 2) := by
  have positive : 0 < |ai| + |human| := by
    rcases eq_or_ne ai 0 with rfl | other
    · have size : 0 < |human| := abs_pos.mpr differ.symm
      rwa [abs_zero, zero_add]
    · have size : 0 < |ai| := abs_pos.mpr other
      exact add_pos_of_pos_of_nonneg size (abs_nonneg human)
  have average : ((|ai| + |human|) / 2 == 0) = false := by
    rw [beq_eq_false_iff_ne]
    exact (half_pos positive).ne'
  unfold effectSize
  simp only [exact_abs, exact_count, exact_zero, Nat.cast_ofNat]
  rw [average]
  rfl

/- What a profile keeps of an order: so many from the front, with weights that go down. -/
structure FirstOf (order : List (String × Rat × Rat)) (topCount : Nat)
    (critical : List (CriticalFeature Rat)) : Prop where
  features : critical.map CriticalFeature.feature = order.take topCount
  size : critical.length = min topCount order.length
  named : (critical.map (·.name)).Nodup
  beaten : ∀ c ∈ critical, ∀ other ∈ order, other.1 ∉ critical.map (·.name) →
    Outranks c.feature other
  effect : ∀ c ∈ critical,
    c.effectSize = |c.aiMean - c.humanMean| / ((|c.aiMean| + |c.humanMean|) / 2)
  weight : ∀ (rank : Nat) c, critical[rank]? = some c →
    c.weight = max 0.05 (0.20 - 0.01 * (rank : Rat))
  falling : critical.Pairwise fun c later => later.weight ≤ c.weight
  spread : ∀ c ∈ critical, 0 < c.spread
  direction : ∀ c ∈ critical, c.isHigherInAi = true ↔ c.humanMean < c.aiMean

theorem critical_at {stats : Stats Rat} {topCount rank : Nat} {c : CriticalFeature Rat}
    (kept : (Profile.ofStats stats topCount).critical[rank]? = some c) :
    c = Profile.criticalAt rank c.name c.aiMean c.humanMean := by
  have placed := Profile.rank_from_at 0 rank ((Profile.ranked stats).take topCount)
  rw [Nat.zero_add] at placed
  obtain ⟨feature, -, rfl⟩ := Option.map_eq_some_iff.mp (placed.symm.trans kept)
  rfl

theorem kept_outranks_omitted {topCount : Nat} {c : CriticalFeature Rat}
    (kept : c ∈ (Profile.ofStats stats topCount).critical) {other : String × Rat × Rat}
    (separates : Separates stats other)
    (omitted : other.1 ∉ (Profile.ofStats stats topCount).critical.map (·.name)) :
    Outranks c.feature other := by
  have features := Profile.features_of_critical stats topCount
  have ordered := (ranked_is_ranking stats).ordered
  rw [← List.take_append_drop topCount (Profile.ranked stats), List.pairwise_append] at ordered
  apply ordered.2.2
  · rw [← features]
    exact List.mem_map_of_mem kept
  · have member := (mem_ranked_iff other).mpr separates
    rw [← List.take_append_drop topCount (Profile.ranked stats), List.mem_append] at member
    rcases member with front | back
    · rw [← features] at front
      obtain ⟨d, inside, same⟩ := List.mem_map.mp front
      exact absurd (List.mem_map.mpr ⟨d, inside, congrArg Prod.fst same⟩) omitted
    · exact back

theorem critical_first (stats : Stats Rat) (topCount : Nat) :
    FirstOf (Profile.ranked stats) topCount (Profile.ofStats stats topCount).critical := by
  have features := Profile.features_of_critical stats topCount
  have ranks (c : CriticalFeature Rat) (kept : c ∈ (Profile.ofStats stats topCount).critical) :
      RankedBy stats c := critical_is_ranked kept
  constructor
  · exact features
  · rw [← List.length_map CriticalFeature.feature, features, List.length_take]
  · exact Profile.critical_names_distinct stats topCount
  · intro c kept other member omitted
    exact kept_outranks_omitted kept ((mem_ranked_iff other).mp member) omitted
  · intro c kept
    obtain ⟨rank, found⟩ := List.getElem?_of_mem kept
    rw [← exact_effect_size (ne_of_beq_false (ranks c kept).differ)]
    exact congrArg CriticalFeature.effectSize (critical_at found)
  · intro rank c found
    rw [← exact_rank_weight]
    exact congrArg CriticalFeature.weight (critical_at found)
  · apply List.pairwise_iff_getElem.mpr
    intro rank later bound bound' before
    have weight := congrArg CriticalFeature.weight
      (critical_at (List.getElem?_eq_getElem bound))
    have weight' := congrArg CriticalFeature.weight
      (critical_at (List.getElem?_eq_getElem bound'))
    rw [weight, weight']
    exact rank_weight_antitone before.le
  · intro c kept
    exact spread_positive (ranks c kept)
  · intro c kept
    obtain ⟨rank, found⟩ := List.getElem?_of_mem kept
    rw [congrArg CriticalFeature.isHigherInAi (critical_at found)]
    exact decide_eq_true_iff

/-- The features that have different means on the two sides have exactly one order by effect size
and then by name, and whatever number of them a profile keeps, it keeps the first ones. -/
theorem critical_features_come_first (stats : Stats Rat) :
    ∃ order, (∀ other, RankingOf stats other ↔ other = order) ∧
      (∀ topCount, FirstOf order topCount (Profile.ofStats stats topCount).critical) ∧
      ∀ few many, few ≤ many →
        (Profile.ofStats stats few).critical <+: (Profile.ofStats stats many).critical := by
  refine ⟨Profile.ranked stats, ?_, critical_first stats, ?_⟩
  · intro other
    constructor
    · intro ranking
      exact ranking_unique ranking (ranked_is_ranking stats)
    · rintro rfl
      exact ranked_is_ranking stats
  · intro few many le
    exact Profile.critical_prefix stats le

/- Two loops are as far apart as each other, and the lines of code are not apart at all. -/
example :
    let stats : Stats Rat := {
      ai := .ofList [("ast.for_loops_per_loc", 1), ("ast.while_loops_per_loc", 1),
        ("basic.loc", 10), ("basic.comment_ratio", 0.1)]
      human := .ofList [("ast.for_loops_per_loc", 3), ("ast.while_loops_per_loc", 3),
        ("basic.loc", 10), ("basic.comment_ratio", 0.9)] }
    (Profile.ofStats stats 2).critical.map (·.name) =
      ["basic.comment_ratio", "ast.for_loops_per_loc"] := by
  decide +kernel

end Authorship.Baseline
