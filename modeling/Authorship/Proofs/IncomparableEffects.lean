import Authorship.Proofs.Contributions
import Authorship.Proofs.DoubleErrors
import Authorship.Proofs.Ranking

/-
The ranking of a profile over doubles. The distance of two finite means can be beyond the greatest
double, and then so is the sum of their sizes: an infinity is divided by an infinity, and the effect
compares with nothing. Every other effect is a number, and these are ranked by one strict order.
-/
namespace Authorship.Baseline

open Scalar

variable {ai human : Float}

theorem double_effect_eq (ai human : Float) :
    effectSize ai human = if (ai.abs + human.abs) / count 2 == zero then (ai - human).abs
      else (ai - human).abs / ((ai.abs + human.abs) / count 2) := rfl

theorem sum_of_sizes_leans (finite : ai.isFinite = true) (finite' : human.isFinite = true) :
    Leans .positive (ai.abs + human.abs).toModel.unpack :=
  double_sum_leans (double_abs_leans (finite_is_number finite))
    (double_abs_leans (finite_is_number finite'))

theorem double_abs_finite (x : Float) : x.abs.isFinite = x.isFinite := by
  change x.abs.toModel.unpack.isFinite = x.toModel.unpack.isFinite
  rw [double_abs_unpacked]
  cases x.toModel.unpack <;> rfl

/-- Two means are no further apart than their sizes together. -/
theorem sizes_overflow (finite : ai.isFinite = true) (finite' : human.isFinite = true)
    (unbounded : (ai - human).isFinite = false) : (ai.abs + human.abs).isFinite = false := by
  have distance := (double_difference_near finite finite').finite_iff
  have sizes := (double_sum_near ((double_abs_finite ai).trans finite)
    ((double_abs_finite human).trans finite')).finite_iff
  rw [← Bool.not_eq_true, distance, not_lt] at unbounded
  rw [← Bool.not_eq_true, sizes, not_lt, value_of_abs, value_of_abs]
  calc overflowLimit ≤ |valueOf ai - valueOf human| := unbounded
    _ ≤ |valueOf ai| + |valueOf human| := abs_sub _ _
    _ ≤ |(|valueOf ai| + |valueOf human|)| := le_abs_self _

theorem two_finite : (count 2 : Float).isFinite = true := by
  obtain ⟨m, e, h, unpacked, -⟩ := count_finite two_pos (by decide)
  exact congrArg Float.Model.UnpackedFloat.isFinite unpacked

theorem unbounded_effect (finite : ai.isFinite = true) (finite' : human.isFinite = true)
    (unbounded : (ai - human).isFinite = false) : (effectSize ai human).isNaN = true := by
  have sizes := infinite_of_leans (sum_of_sizes_leans finite finite')
    (sizes_overflow finite finite' unbounded)
  obtain ⟨s, average⟩ := infinity_divided sizes two_finite
  have number := double_difference_number finite (finite_is_number finite')
  have distance : (ai - human).abs.toModel.unpack = .infinity .positive :=
    infinite_of_leans (double_abs_leans number) ((double_abs_finite _).trans unbounded)
  have some : ((ai.abs + human.abs) / count 2 == zero) = false := by
    rw [← Bool.not_eq_true, beq_zero_iff, average]
    nofun
  rw [double_effect_eq, some, if_neg Bool.false_ne_true]
  exact infinities_divided distance average

theorem bounded_effect (finite : ai.isFinite = true) (finite' : human.isFinite = true)
    (bounded : (ai - human).isFinite = true) : (effectSize ai human).isNaN = false := by
  have distance := (double_abs_finite _).trans bounded
  have leans := sum_of_sizes_leans finite finite'
  rw [double_effect_eq]
  by_cases within : (ai.abs + human.abs).isFinite = true
  · have averaged : ((ai.abs + human.abs) / count 2).isFinite = true :=
      quotient_finite within (count_large two_pos)
    have side : Leans .positive ((ai.abs + human.abs) / count 2).toModel.unpack :=
      double_quotient_leans (k := 1) leans within
        ((zero_le_iff_leans _).mp (by decide +kernel)) (by decide +kernel)
    split
    · exact finite_is_number distance
    · rename_i some
      refine double_quotient_number (finite_is_number distance) ?_
      rw [beq_zero_iff] at some
      have averaged : ((ai.abs + human.abs) / count 2).toModel.unpack.isFinite = true := averaged
      cases kind : ((ai.abs + human.abs) / count 2).toModel.unpack with
      | notANumber => rw [kind] at averaged; contradiction
      | infinity s => rw [kind] at averaged; contradiction
      | zero s => exact absurd ⟨s, kind⟩ some
      | finite s m e h =>
        rw [kind] at side
        obtain rfl : s = .positive := side
        trivial
  · have infinite := infinite_of_leans leans (Bool.eq_false_of_not_eq_true within)
    obtain ⟨s, average⟩ := infinity_divided infinite two_finite
    obtain ⟨t, effect⟩ := divided_by_infinity distance average
    split
    · exact finite_is_number distance
    · change Float.Model.UnpackedFloat.isNaN _ = false
      rw [effect]
      rfl

theorem effect_unknown_iff (finite : ai.isFinite = true) (finite' : human.isFinite = true) :
    (effectSize ai human).isNaN = true ↔ (ai - human).isFinite = false := by
  constructor
  · intro unknown
    by_contra bounded
    rw [bounded_effect finite finite' (Bool.eq_true_of_not_eq_false bounded)] at unknown
    contradiction
  · exact unbounded_effect finite finite'

def doubleEffect (feature : String × Float × Float) : Float := effectSize feature.2.1 feature.2.2

def Unbounded (feature : String × Float × Float) : Prop :=
  (feature.2.1 - feature.2.2).isFinite = false

instance : DecidablePred Unbounded := fun _ => inferInstanceAs (Decidable (_ = false))

def ranksBefore (feature other : String × Float × Float) : Bool :=
  largerFirst doubleEffect (·.1) feature other

def separated (stats : Stats Float) : List (String × Float × Float) :=
  stats.paired.filter fun feature => !(feature.2.1 == feature.2.2)

theorem ranked_sorts (stats : Stats Float) :
    Profile.ranked stats = sortBy ranksBefore (separated stats) := rfl

theorem ranks_by_value {feature other : String × Float × Float}
    (number : (doubleEffect feature).isNaN = false)
    (number' : (doubleEffect other).isNaN = false) :
    ranksBefore feature other =
      largerFirst (fun f => valueOf (doubleEffect f)) (·.1) feature other := by
  rw [ranksBefore, largerFirst, largerFirst]
  simp only [double_lt_iff_value number number', double_lt_iff_value number' number]

/-- What the ranking of statistics is like. -/
structure RankingOrder (stats : Stats Float) : Prop where
  finite : ∀ feature ∈ stats.paired,
    feature.2.1.isFinite = true ∧ feature.2.2.isFinite = true
  unknown : ∀ feature ∈ stats.paired,
    (doubleEffect feature).isNaN = true ↔ Unbounded feature
  incomparable : ∀ feature ∈ stats.paired, ∀ other ∈ stats.paired,
    compareDoubles (doubleEffect feature) (doubleEffect other) = none ↔
      Unbounded feature ∨ Unbounded other
  total : IsStrictTotalOrder { feature // feature ∈ stats.paired ∧ ¬ Unbounded feature }
    fun feature other => ranksBefore feature other = true
  sorted : (∀ feature ∈ stats.paired, ¬ Unbounded feature) →
    (Profile.ranked stats).Pairwise fun feature later => ranksBefore feature later = true

variable {stats : Stats Float}

theorem documented_finite (documented : stats.Documented) :
    ∀ feature ∈ stats.paired, feature.2.1.isFinite = true ∧ feature.2.2.isFinite = true := by
  rintro ⟨name, ai, human⟩ member
  obtain ⟨found, found'⟩ := (stats.mem_paired name ai human).mp member
  exact ⟨(documented .ai name ai found).2, (documented .human name human found').2⟩

theorem paired_by_name {feature other : String × Float × Float} (member : feature ∈ stats.paired)
    (member' : other ∈ stats.paired) (named : feature.1 = other.1) : feature = other :=
  List.inj_on_of_nodup_map (ascending_names stats.paired_ascending) member member' named

theorem bounded_strictly_ordered (numbers : ∀ feature ∈ stats.paired, ¬ Unbounded feature →
      (doubleEffect feature).isNaN = false) :
    IsStrictTotalOrder { feature // feature ∈ stats.paired ∧ ¬ Unbounded feature }
      fun feature other => ranksBefore feature other = true := by
  have before (feature other : { feature // feature ∈ stats.paired ∧ ¬ Unbounded feature }) :
      ranksBefore feature other = true ↔
        valueOf (doubleEffect other) < valueOf (doubleEffect feature) ∨
          valueOf (doubleEffect feature) = valueOf (doubleEffect other) ∧
            feature.1.1 < other.1.1 := by
    rw [ranks_by_value (numbers feature feature.2.1 feature.2.2)
      (numbers other other.2.1 other.2.2), larger_first_iff]
  refine { trichotomous := ?_, irrefl := ?_, trans := ?_ }
  · intro feature other notBefore notBehind
    rw [before, not_or, not_lt, not_and] at notBefore notBehind
    have same := le_antisymm notBefore.1 notBehind.1
    have named : feature.1.1 = other.1.1 := String.le_antisymm
      (String.not_lt.mp (notBehind.2 same.symm)) (String.not_lt.mp (notBefore.2 same))
    exact Subtype.ext (paired_by_name feature.2.1 other.2.1 named)
  · intro feature itself
    rw [before] at itself
    rcases itself with larger | ⟨-, earlier⟩
    · exact lt_irrefl _ larger
    · exact String.lt_irrefl _ earlier
  · intro feature other third first second
    rw [before] at first second ⊢
    rcases first with larger | ⟨same, earlier⟩
    · rcases second with larger' | ⟨same', -⟩
      · exact Or.inl (larger'.trans larger)
      · exact Or.inl (same' ▸ larger)
    · rcases second with larger' | ⟨same', earlier'⟩
      · exact Or.inl (same ▸ larger')
      · exact Or.inr ⟨same.trans same', String.lt_trans earlier earlier'⟩

theorem ranked_in_order (numbers : ∀ feature ∈ stats.paired, (doubleEffect feature).isNaN = false) :
    (Profile.ranked stats).Pairwise fun feature later => ranksBefore feature later = true := by
  have inside {feature : String × Float × Float} (member : feature ∈ separated stats) :
      (doubleEffect feature).isNaN = false := numbers feature (List.mem_of_mem_filter member)
  have distinct : ((separated stats).map (·.1)).Nodup :=
    (List.filter_sublist.map _).nodup (ascending_names stats.paired_ascending)
  have byValue : Profile.ranked stats =
      sortBy (largerFirst (fun f => valueOf (doubleEffect f)) (·.1)) (separated stats) := by
    rw [ranked_sorts]
    exact sort_alike fun feature member other member' =>
      ranks_by_value (inside member) (inside member')
  have sorted := sort_larger_first (fun f => valueOf (doubleEffect f)) (·.1) distinct
  rw [← byValue] at sorted
  refine sorted.imp_of_mem ?_
  intro feature later member member' before
  rw [ranked_sorts, mem_sort] at member member'
  rw [ranks_by_value (inside member) (inside member'), larger_first_iff]
  exact before

theorem documented_order (documented : stats.Documented) : RankingOrder stats := by
  have finite := documented_finite documented
  have unknown (feature : String × Float × Float) (member : feature ∈ stats.paired) :
      (doubleEffect feature).isNaN = true ↔ Unbounded feature :=
    effect_unknown_iff (finite feature member).1 (finite feature member).2
  have number (feature : String × Float × Float) (member : feature ∈ stats.paired)
      (bounded : ¬ Unbounded feature) : (doubleEffect feature).isNaN = false :=
    Bool.eq_false_of_not_eq_true (mt (unknown feature member).mp bounded)
  refine ⟨finite, unknown, ?_, bounded_strictly_ordered number, fun bounded =>
    ranked_in_order fun feature member => number feature member (bounded feature member)⟩
  intro feature member other member'
  rw [← unknown feature member, ← unknown other member', compareDoubles,
    ← Option.not_isSome_iff_eq_none, compare_defined, Bool.and_eq_true, Bool.not_eq_true',
    Bool.not_eq_true', not_and_or, Bool.not_eq_false, Bool.not_eq_false]
  rfl

/-- The order is one of all features but those whose distance is beyond the greatest double. -/
theorem accepted_ranking_order {content : String} {stats : Stats Float}
    (parsed : Stats.parse content = .ok stats) : RankingOrder stats :=
  documented_order (Stats.parsed_documented parsed)

/-- The means of one feature are as far apart as doubles can be. -/
def oppositeMeans : String :=
  "\x7b\"blank_ratio_ai_mean\":5,\"blank_ratio_human_mean\":3," ++
    "\"comment_ratio_ai_mean\":1e308,\"comment_ratio_human_mean\":-1e308," ++
    "\"loc_ai_mean\":3,\"loc_human_mean\":1\x7d"

def inCircle (first second third : String × Float × Float) : Bool :=
  ranksBefore first second && ranksBefore second third && ranksBefore third first

def pairedInCircle : List (String × Float × Float) → Bool
  | [first, second, third] => decide (Unbounded second) && inCircle first second third
  | _ => false

theorem opposite_means_paired :
    ∃ stats first second third, Stats.parse oppositeMeans = .ok stats ∧
      stats.paired = [first, second, third] ∧ Unbounded second ∧
        inCircle first second third = true := by
  have checked : ((Stats.parse oppositeMeans).toOption.any fun stats =>
      pairedInCircle stats.paired) = true := by decide +kernel
  cases parsed : Stats.parse oppositeMeans with
  | error => rw [parsed] at checked; exact absurd checked Bool.false_ne_true
  | ok stats =>
    rw [parsed] at checked
    have circle : pairedInCircle stats.paired = true := checked
    unfold pairedInCircle at circle
    split at circle
    · rename_i first second third paired
      rw [Bool.and_eq_true, decide_eq_true_iff] at circle
      exact ⟨stats, first, second, third, rfl, paired, circle⟩
    · exact absurd circle Bool.false_ne_true

theorem opposite_means_ranked :
    ∃ stats, Stats.parse oppositeMeans = .ok stats ∧ RankingOrder stats ∧
      ∃ feature ∈ stats.paired, Unbounded feature := by
  obtain ⟨stats, first, second, third, parsed, paired, unbounded, -⟩ := opposite_means_paired
  exact ⟨stats, parsed, accepted_ranking_order parsed, second, by simp [paired], unbounded⟩

/-- The first feature is ranked before the second, that before the third, and the third before the
first, since the effect of the second is not a number. -/
theorem opposite_means_in_circle :
    ∃ stats first second third, Stats.parse oppositeMeans = .ok stats ∧
      stats.paired = [first, second, third] ∧ (doubleEffect second).isNaN = true ∧
        inCircle first second third = true := by
  obtain ⟨stats, first, second, third, parsed, paired, unbounded, circle⟩ := opposite_means_paired
  have finite := documented_finite (Stats.parsed_documented parsed) second (by simp [paired])
  exact ⟨stats, first, second, third, parsed, paired,
    (effect_unknown_iff finite.1 finite.2).mpr unbounded, circle⟩

end Authorship.Baseline
