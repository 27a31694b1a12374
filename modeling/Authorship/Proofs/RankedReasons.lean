import Authorship.Detection.Result
import Authorship.Proofs.FiniteTerms

/-
Which reasons a result gives. Sorting needs an order, and doubles have none because of NaN. But the
terms of a score are finite, and the size of a finite double is a whole number of least positive
doubles. So there is one order of the terms that count, and the reasons are the first of them. A
critical feature is said to be near a baseline by its score, and its vote is on the same side.
-/
namespace Authorship

open Float.Model (UnpackedFloat)

/-- The size in units of the least positive double. -/
def unitSize : UnpackedFloat → Nat
  | .finite _ m e _ => m <<< (e + 1074).toNat
  | _ => 0

theorem unit_size_positive {s : UnpackedFloat.Sign} {m : Nat} {e : Int} (h : 0 < m) :
    0 < unitSize (.finite s m e h) := by
  rw [unitSize, Nat.shiftLeft_eq]
  exact Nat.mul_pos h (Nat.two_pow_pos _)

theorem compare_scaled (a b k : Nat) : compare (a <<< k) (b <<< k) = compare a b := by
  have positive := Nat.two_pow_pos k
  rw [Nat.shiftLeft_eq, Nat.shiftLeft_eq]
  rcases lt_trichotomy a b with less | rfl | greater
  · rw [Nat.compare_eq_lt.mpr less, Nat.compare_eq_lt]
    exact Nat.mul_lt_mul_of_pos_right less positive
  · rw [Nat.compare_eq_eq.mpr rfl, Nat.compare_eq_eq.mpr rfl]
  · rw [Nat.compare_eq_gt.mpr greater, Nat.compare_eq_gt]
    exact Nat.mul_lt_mul_of_pos_right greater positive

theorem compare_unit_sizes {x y : Float} (finite : x.isFinite = true)
    (finite' : y.isFinite = true) :
    compareDoubles x.abs y.abs =
      some (compare (unitSize x.toModel.unpack) (unitSize y.toModel.unpack)) := by
  have finite : x.toModel.unpack.isFinite = true := finite
  have finite' : y.toModel.unpack.isFinite = true := finite'
  have rounded := double_rounded x
  have rounded' := double_rounded y
  rw [compareDoubles, double_abs_unpacked, double_abs_unpacked]
  generalize x.toModel.unpack = u at *
  generalize y.toModel.unpack = v at *
  cases u with
  | notANumber => contradiction
  | infinity s => contradiction
  | zero s =>
    cases v with
    | notANumber => contradiction
    | infinity t => contradiction
    | zero t => rfl
    | finite t n f h' => exact congrArg some (Nat.compare_eq_lt.mpr (unit_size_positive h')).symm
  | finite s m e h =>
    cases v with
    | notANumber => contradiction
    | infinity t => contradiction
    | zero t => exact congrArg some (Nat.compare_eq_gt.mpr (unit_size_positive h)).symm
    | finite t n f h' =>
      have least : -1074 ≤ e ∧ -1074 ≤ f := ⟨rounded.1, rounded'.1⟩
      have places : (e + 1074).toNat = (e - min e f).toNat + (min e f + 1074).toNat ∧
          (f + 1074).toNat = (f - min e f).toNat + (min e f + 1074).toNat := by omega
      rw [unitSize, unitSize, places.1, places.2, Nat.shiftLeft_add, Nat.shiftLeft_add,
        compare_scaled]
      exact congrArg some (compare_shifted rounded rounded')

namespace Detection

open Baseline Feature Scalar

def Outweighs (first second : Contribution Float) : Prop :=
  abs second.value < abs first.value ∨
    (abs first.value == abs second.value) = true ∧ first.key < second.key

structure StrongestFirst (terms order : List (Contribution Float)) : Prop where
  complete : order.Perm (terms.filter fun term => !(term.value == zero))
  ordered : order.Pairwise Outweighs

def units (term : Contribution Float) : Nat := unitSize term.value.toModel.unpack

variable {first second : Contribution Float}

theorem less_iff_units (finite : first.value.isFinite = true)
    (finite' : second.value.isFinite = true) :
    abs first.value < abs second.value ↔ units first < units second := by
  change first.value.abs < second.value.abs ↔ _
  rw [double_lt_iff, compare_unit_sizes finite finite', Option.some_inj, Nat.compare_eq_lt, units,
    units]

theorem same_iff_units (finite : first.value.isFinite = true)
    (finite' : second.value.isFinite = true) :
    (abs first.value == abs second.value) = true ↔ units first = units second := by
  change (first.value.abs == second.value.abs) = true ↔ _
  rw [double_beq_iff, compare_unit_sizes finite finite', Option.some_inj, Nat.compare_eq_eq, units,
    units]

theorem at_most_iff_units (finite : first.value.isFinite = true)
    (finite' : second.value.isFinite = true) :
    abs first.value ≤ abs second.value ↔ units first ≤ units second := by
  change first.value.abs ≤ second.value.abs ↔ _
  rw [double_le_iff, compare_unit_sizes finite finite', Option.some_inj, Option.some_inj,
    Nat.compare_eq_lt, Nat.compare_eq_eq, Nat.le_iff_lt_or_eq, units, units]

theorem outweighs_iff (finite : first.value.isFinite = true)
    (finite' : second.value.isFinite = true) :
    Outweighs first second ↔
      units second < units first ∨ units first = units second ∧ first.key < second.key := by
  rw [Outweighs, less_iff_units finite' finite, same_iff_units finite finite']

theorem outweighs_asymm (finite : first.value.isFinite = true)
    (finite' : second.value.isFinite = true) (before : Outweighs first second) :
    ¬ Outweighs second first := by
  rw [outweighs_iff finite finite'] at before
  rw [outweighs_iff finite' finite]
  rintro (larger | ⟨same, earlier⟩)
  · omega
  · rcases before with larger' | ⟨-, earlier'⟩
    · omega
    · exact String.lt_asymm earlier earlier'

theorem no_units_of_zero (zeroed : (first.value == zero) = true) : units first = 0 := by
  rw [double_beq_iff, compareDoubles, zero_unpacked] at zeroed
  rw [units]
  cases kind : first.value.toModel.unpack with
  | finite s m e h =>
    rw [kind] at zeroed
    cases s <;> simp [UnpackedFloat.compare] at zeroed
  | _ => rfl

section Ranked

variable {terms order : List (Contribution Float)}

theorem kept_keys_distinct {keep : Contribution Float → Bool}
    (complete : order.Perm (terms.filter keep)) (distinct : (terms.map (·.key)).Nodup) :
    (order.map (·.key)).Nodup :=
  (complete.map (·.key)).nodup_iff.mpr ((List.filter_sublist.map _).nodup distinct)

variable (finite : ∀ term ∈ terms, term.value.isFinite = true)

include finite

theorem ranked_by_units :
    rankedTerms terms =
      sortBy (largerFirst units (·.key)) (terms.filter fun term => !(term.value == zero)) := by
  apply sort_alike
  intro first member second member'
  have left := finite first (List.mem_of_mem_filter member)
  have right := finite second (List.mem_of_mem_filter member')
  simp only [largerFirst, less_iff_units right left, less_iff_units left right]

theorem ranked_strongest_first (distinct : (terms.map (·.key)).Nodup) :
    StrongestFirst terms (rankedTerms terms) := by
  have complete : (rankedTerms terms).Perm (terms.filter fun term => !(term.value == zero)) :=
    sort_perm _ _
  refine ⟨complete, ?_⟩
  have sorted : (rankedTerms terms).Pairwise fun first second =>
      units second < units first ∨ units first = units second ∧ first.key < second.key := by
    rw [ranked_by_units finite]
    exact sort_larger_first units (·.key) ((List.filter_sublist.map _).nodup distinct)
  have inside (term) (member : term ∈ rankedTerms terms) : term.value.isFinite = true :=
    finite term (List.mem_of_mem_filter (complete.subset member))
  apply sorted.imp_of_mem
  intro first second member member' outweighs
  rwa [outweighs_iff (inside first member) (inside second member')]

theorem strongest_first_unique {order' : List (Contribution Float)}
    (strongest : StrongestFirst terms order) (strongest' : StrongestFirst terms order') :
    order = order' := by
  apply List.Perm.eq_of_pairwise ?_ strongest.ordered strongest'.ordered
    (strongest.complete.trans strongest'.complete.symm)
  intro first second member member' before after
  have inside := finite first (List.mem_of_mem_filter (strongest.complete.subset member))
  have inside' := finite second (List.mem_of_mem_filter (strongest'.complete.subset member'))
  exact absurd after (outweighs_asymm inside inside' before)

theorem omitted_at_most (strongest : StrongestFirst terms order) {limit : Nat}
    {listed omitted : Contribution Float} (shown : listed ∈ order.take limit)
    (member : omitted ∈ terms) (hidden : omitted ∉ order.take limit) :
    abs omitted.value ≤ abs listed.value := by
  have inside := List.mem_of_mem_filter (strongest.complete.subset (List.mem_of_mem_take shown))
  rw [at_most_iff_units (finite omitted member) (finite listed inside)]
  by_cases zeroed : (omitted.value == zero) = true
  · rw [no_units_of_zero zeroed]
    exact Nat.zero_le _
  · have counted : omitted ∈ order := by
      apply strongest.complete.symm.subset
      exact List.mem_filter.mpr ⟨member, by simp [zeroed]⟩
    have ordered := strongest.ordered
    rw [← List.take_append_drop limit order, List.mem_append] at counted
    rw [← List.take_append_drop limit order, List.pairwise_append] at ordered
    have outweighs := ordered.2.2 listed shown omitted (counted.resolve_left hidden)
    rw [outweighs_iff (finite listed inside) (finite omitted member)] at outweighs
    omega

end Ranked

/- The keys of the terms. -/

theorem BaselineDetector.critical_keys_sublist (d : BaselineDetector Float)
    (features : FeatureVector Float) (p : Profile Float) :
    ((d.criticalTerms features p).map (·.key)).Sublist (p.critical.map (·.name)) := by
  rw [criticalTerms]
  simp only
  split
  · exact List.nil_sublist _
  · rw [List.map_map]
    change ((present features p).map (·.1.name)).Sublist _
    rw [present_names]
    exact List.filter_sublist

theorem BaselineDetector.keys_distinct (d : BaselineDetector Float)
    (features : FeatureVector Float) {profile : Option (Profile Float)}
    (documented : ∀ p ∈ profile, p.Documented) :
    ((d.terms features profile).map (·.key)).Nodup := by
  have secondary : secondaryKeys.Nodup := by decide
  cases profile with
  | none => exact secondary
  | some p =>
    have critical := d.critical_keys_sublist features p
    rw [terms, List.map_append]
    refine List.Nodup.append ?_ secondary ?_
    · exact critical.nodup (Profile.documented_names_distinct (documented p rfl))
    · intro name inside collides
      obtain ⟨feature, member, rfl⟩ := List.mem_map.mp (critical.subset inside)
      have known := Profile.documented_names_known (documented p rfl) member
      rw [secondary_keys_unknown _ collides] at known
      contradiction

theorem term_keys_distinct (c : Settings Float) (features : FeatureVector Float)
    {profile : Option (Profile Float)} (documented : ∀ p ∈ profile, p.Documented)
    (method : Method) : ((c.terms features profile method).map (·.key)).Nodup := by
  cases method with
  | heuristic =>
    have keys : (HeuristicDetector.terms features).map (·.key) = rules.map (·.id) := List.map_map
    exact keys ▸ rule_keys_distinct
  | baselineAware => exact BaselineDetector.keys_distinct _ features documented

/- The words and the sign. -/

def nearText (name side : String) : String :=
  BaselineDetector.descriptionOf name ++ " near " ++ side ++ " baseline"

theorem near_texts_differ (name : String) : nearText name "AI" ≠ nearText name "human" := by
  intro same
  have length := congrArg String.length same
  simp [nearText, String.length_append] at length
  exact absurd length (by decide)

theorem positive_of_leans {x : Float} (leans : Leans .positive x.toModel.unpack)
    (counts : (x == zero) = false) : zero < x ∧ ¬ x < zero := by
  have atLeast := (zero_le_iff_leans x).mpr leans
  refine ⟨?_, fun less => not_le_of_double_lt less atLeast⟩
  rcases (double_le_iff zero x).mp atLeast with less | same
  · exact (double_lt_iff zero x).mpr less
  · rw [double_beq_comm, (double_beq_iff zero x).mpr same] at counts
    contradiction

theorem negative_of_leans {x : Float} (leans : Leans .negative x.toModel.unpack)
    (counts : (x == zero) = false) : x < zero ∧ ¬ zero < x := by
  have atMost := (le_zero_iff_leans x).mpr leans
  refine ⟨?_, fun less => not_le_of_double_lt less atMost⟩
  rcases (double_le_iff x zero).mp atMost with less | same
  · exact (double_lt_iff x zero).mpr less
  · rw [(double_beq_iff x zero).mpr same] at counts
    contradiction

/-- The description of a term goes by its sign. -/
structure WordedBySign (name : String) (term : Contribution Float) : Prop where
  ai : term.description = nearText name "AI" ↔ zero < term.value
  human : term.description = nearText name "human" ↔ term.value < zero

namespace BaselineDetector

variable {d : BaselineDetector Float} {features : FeatureVector Float} {p : Profile Float}

theorem critical_term_worded (weights : ∀ w ∈ d.blend.weights,
      Leans .positive w.toModel.unpack ∧ SizeBelow 2 w.toModel.unpack)
    (documented : p.Documented) {term : Contribution Float}
    (member : term ∈ d.criticalTerms features p) (counts : (term.value == zero) = false) :
    WordedBySign term.key term := by
  obtain ⟨c, inside, x, total, rfl, leans, size⟩ := mem_critical_terms documented member
  obtain ⟨weight, small⟩ := weights d.blend.baseline List.mem_cons_self
  have weighty := critical_weighty documented inside
  obtain ⟨-, toAi, toHuman⟩ := critical_term_sided weight small weighty leans size x
  have differ := near_texts_differ c.name
  by_cases above : half ≤ featureScore c x
  · have worded : (d.criticalTerm total c x).description = nearText c.name "AI" := by
      rw [criticalTerm, leaning, if_pos above, nearText]
    obtain ⟨positive, notNegative⟩ := positive_of_leans (toAi above) counts
    constructor
    · exact iff_of_true worded positive
    · exact iff_of_false (worded ▸ differ) notNegative
  · have worded : (d.criticalTerm total c x).description = nearText c.name "human" := by
      rw [criticalTerm, leaning, if_neg above, nearText]
    obtain ⟨negative, notPositive⟩ := negative_of_leans (toHuman above) counts
    constructor
    · exact iff_of_false (worded ▸ differ.symm) notPositive
    · exact iff_of_true worded negative

end BaselineDetector

theorem rule_keys_unknown :
    ∀ r ∈ (aiRules ++ humanRules : List (Rule Float)), isKnown r.id = false := by decide +kernel

theorem known_term_worded (c : Settings Float) {features : FeatureVector Float}
    {profile : Option (Profile Float)} (documented : ∀ p ∈ profile, p.Documented)
    {method : Method} {term : Contribution Float}
    (member : term ∈ c.terms features profile method) (known : isKnown term.key = true)
    (counts : (term.value == zero) = false) : WordedBySign term.key term := by
  cases method with
  | heuristic =>
    obtain ⟨r, inside, rfl⟩ := List.mem_map.mp member
    rw [rule_keys_unknown r inside] at known
    contradiction
  | baselineAware =>
    rw [Settings.terms, BaselineDetector.terms, List.mem_append] at member
    rcases member with critical | secondary
    · cases profile with
      | none => contradiction
      | some p =>
        exact BaselineDetector.critical_term_worded (Blend.repaired_weights_small _)
          (documented p rfl) critical counts
    · rw [secondary_keys_unknown term.key (List.mem_map_of_mem secondary)] at known
      contradiction

/-- If there is something to score, the terms that count have exactly one order by size and then by
key, and the reasons are the first of them: nothing that is left out is larger, no key is there
twice, and a critical feature is near the baseline of the side that it speaks for. -/
theorem reasons_are_the_strongest_terms (c : Settings Float) {features : FeatureVector Float}
    (finite : features.Finite) (signal : hasSignal features = true)
    {profile : Option (Profile Float)} (documented : ∀ p ∈ profile, p.Documented) :
    let terms := c.terms features profile (c.strategy.resolve profile)
    ∃ order, (∀ other, StrongestFirst terms other ↔ other = order) ∧
      let listed := order.take c.reasonLimit
      (detect c features profile).reasons =
        listed.map (fun term => .term term.description term.value) ∧
      (∀ term ∈ listed, ∀ omitted ∈ terms, omitted ∉ listed →
        abs omitted.value ≤ abs term.value) ∧
      (listed.map (·.key)).Nodup ∧
      ∀ p ∈ profile, ∀ feature ∈ p.critical, ∀ term ∈ listed, term.key = feature.name →
        WordedBySign feature.name term := by
  intro terms
  have finite : ∀ term ∈ terms, term.value.isFinite = true :=
    terms_finite c finite documented (c.strategy.resolve profile)
  have distinct : (terms.map (·.key)).Nodup := term_keys_distinct c features documented _
  have strongest := ranked_strongest_first finite distinct
  have shown := List.take_sublist c.reasonLimit (rankedTerms terms)
  refine ⟨rankedTerms terms, ?_, ?_, ?_, ?_, ?_⟩
  · intro other
    constructor
    · intro strongest'
      exact strongest_first_unique finite strongest' strongest
    · rintro rfl
      exact strongest
  · rw [detect_assembles, if_pos signal]
    rfl
  · intro term listed omitted member hidden
    exact omitted_at_most finite strongest listed member hidden
  · exact (shown.map _).nodup (kept_keys_distinct strongest.complete distinct)
  · intro p holds feature critical term listed named
    obtain ⟨member, counts⟩ := List.mem_filter.mp
      (strongest.complete.subset (shown.subset listed))
    have known : isKnown term.key = true :=
      named ▸ Profile.documented_names_known (documented p holds) critical
    rw [Bool.not_eq_true'] at counts
    exact named ▸ known_term_worded c documented member known counts

def mixedFeatures : FeatureVector Float :=
  .written [.insert "basic.loc" 25, .insert "basic.comment_ratio" 0.03,
    .insert "naming.generic_var_ratio" 0.1, .insert "basic.cyclomatic_complexity" 2,
    .insert "ast.indentation_consistency" 0.96, .insert "ast.if_statements_per_loc" 0.1,
    .insert "human_style.overall_human_score" 0.4]

/- Two more terms are zero, and the complexity is left out. -/
theorem six_of_seven_terms_listed :
    mixedFeatures.Finite ∧ hasSignal mixedFeatures = true ∧
      (Profile.reference : Profile Float).Documented ∧
      let reasons := (detect .default mixedFeatures (some .reference)).reasons
      (∃ order, StrongestFirst (Settings.default.terms mixedFeatures (some .reference)
          .baselineAware) order ∧
        reasons = (order.take 6).map fun term => .term term.description term.value) ∧
      reasons.map (·.text) = ["Absence of human irregularity (+0.050)",
        "Generic share of declared variables near AI baseline (+0.046)",
        "Polished formatting and naming (+0.040)",
        "Dominance of one indentation character near human baseline (-0.036)",
        "Comment lines per physical line near human baseline (-0.034)",
        "Weighted human irregularity near AI baseline (+0.030)"] := by
  have finite : mixedFeatures.Finite := FeatureVector.written_finite _
  have signal : hasSignal mixedFeatures = true := by decide +kernel
  have documented : (Profile.reference : Profile Float).Documented :=
    Profile.of_means_documented Profile.referenceMeans defaultTopCount
  have profile : ∀ p ∈ some (Profile.reference : Profile Float), p.Documented :=
    fun p member => Option.some.inj member ▸ documented
  have method : (Settings.default : Settings Float).strategy.resolve
      (some (Profile.reference : Profile Float)) = .baselineAware := by decide +kernel
  have limit : (Settings.default : Settings Float).reasonLimit = 6 := rfl
  obtain ⟨order, unique, reasons, -⟩ :=
    reasons_are_the_strongest_terms .default finite signal profile
  rw [method] at unique
  rw [limit] at reasons
  refine ⟨finite, signal, documented, ⟨order, (unique order).mpr rfl, reasons⟩, ?_⟩
  decide +kernel

end Detection

end Authorship
