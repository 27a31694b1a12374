import Authorship.Config.Decode
import Authorship.Proofs.BlendedScore
import Authorship.Proofs.ExtendedNumbers

/-
Repaired settings. Thresholds that are out of order, or out of the unit interval, give way to the
default pair; weights of a blend that do not add up to one are divided by their sum, or give way to
the default ones where that cannot be done; and at least one feature is kept. Whatever is in order
stays as it was given, so that nothing is left to repair.
-/
namespace Authorship

open Detection Scalar

namespace Detection

theorem blend_valid_iff (b : Blend Rat) :
    b.isValid = true ↔ (∀ w ∈ b.weights, 0 ≤ w) ∧ |b.total - 1| < 1 / 1000 := by
  have tolerance : (Blend.tolerance : Rat) = 1 / 1000 := by
    rw [Blend.tolerance]
    norm_num
  rw [Blend.isValid, Bool.and_eq_true, List.all_eq_true, tolerance, exact_abs]
  exact and_congr (forall₂_congr fun _ _ => decide_eq_true_iff) decide_eq_true_iff

theorem quotients_total (b : Blend Rat) (some : b.total ≠ 0) :
    (⟨b.baseline / b.total, b.perfection / b.total, b.simplicity / b.total,
      b.chaos / b.total⟩ : Blend Rat).total = 1 := by
  calc _ = b.total / b.total := by simp only [Blend.total, add_div]
    _ = 1 := div_self some

theorem normalized_valid (b : Blend Rat) : b.normalize.isValid = true := by
  refine (blend_valid_iff _).mpr ⟨normalized_weights_nonneg b, ?_⟩
  unfold Blend.normalize
  split
  · decide +kernel
  · rename_i divisible
    rw [Bool.or_eq_true, not_or, decide_eq_true_iff] at divisible
    have positive : 0 < b.total := not_le.mp divisible.2
    rw [quotients_total b positive.ne', sub_self, abs_zero]
    norm_num

theorem repaired_valid (b : Blend Rat) : b.repair.isValid = true := by
  unfold Blend.repair
  split
  · assumption
  · exact normalized_valid b

/- And as numbers that need not be finite. -/

def Blend.extended (b : Blend Rat) : Blend Extended :=
  ⟨.finite b.baseline, .finite b.perfection, .finite b.simplicity, .finite b.chaos⟩

theorem extended_injective {b c : Blend Rat} (same : b.extended = c.extended) : b = c := by
  cases b
  cases c
  simpa [Blend.extended] using same

theorem extended_weights (b : Blend Rat) : b.extended.weights = b.weights.map .finite := rfl

theorem extended_total (b : Blend Rat) : b.extended.total = .finite b.total := by
  simp only [Blend.total, Blend.extended, Extended.finite_add]

theorem extended_valid (b : Blend Rat) : b.extended.isValid = b.isValid := by
  have nonneg (w : Rat) : decide (zero ≤ Extended.finite w) = decide (zero ≤ w) :=
    decide_eq_decide.mpr (Extended.finite_at_most 0 w)
  have near : decide (Scalar.abs (b.extended.total - one) < Blend.tolerance) =
      decide (Scalar.abs (b.total - one) < Blend.tolerance) := by
    rw [extended_total, Extended.one_finite, Extended.finite_sub, Extended.finite_abs]
    exact decide_eq_decide.mpr (Extended.finite_less _ _)
  rw [Blend.isValid, Blend.isValid, near, extended_weights, List.all_map]
  simp only [Function.comp_def, nonneg]

theorem extended_normalize (b : Blend Rat) : b.extended.normalize = b.normalize.extended := by
  have reset : ((b.extended.weights.any fun w => !isFinite w || w < zero) ||
      b.extended.total ≤ zero) = ((b.weights.any fun w => !isFinite w || w < zero) ||
      b.total ≤ zero) := by
    have negative (w : Rat) : decide (Extended.finite w < zero) = decide (w < zero) :=
      decide_eq_decide.mpr (Extended.finite_less w 0)
    have nothing : decide (b.extended.total ≤ zero) = decide (b.total ≤ zero) :=
      decide_eq_decide.mpr (Extended.finite_at_most b.total 0)
    rw [nothing, extended_weights, List.any_map]
    simp only [Function.comp_def, negative]
    rfl
  unfold Blend.normalize
  rw [reset]
  split
  · rfl
  · rename_i divisible
    rw [Bool.or_eq_true, not_or, decide_eq_true_iff] at divisible
    have some : b.total ≠ 0 := (not_le.mp divisible.2).ne'
    rw [extended_total]
    simp only [Blend.extended, Extended.finite_div some]

theorem extended_repair (b : Blend Rat) : b.extended.repair = b.repair.extended := by
  unfold Blend.repair
  rw [extended_valid]
  split
  · rfl
  · exact extended_normalize b

theorem unbounded_total {b : Blend Extended}
    (unbounded : ∃ w ∈ b.weights, Extended.isFinite w = false) :
    Extended.isFinite b.total = false := by
  simp only [Blend.weights, List.exists_mem_cons_iff, List.not_mem_nil, false_and,
    exists_false, or_false] at unbounded
  unfold Blend.total
  rcases unbounded with first | second | third | fourth
  · exact Extended.add_unbounded (Or.inl (Extended.add_unbounded
      (Or.inl (Extended.add_unbounded (Or.inl first)))))
  · exact Extended.add_unbounded (Or.inl (Extended.add_unbounded
      (Or.inl (Extended.add_unbounded (Or.inr second)))))
  · exact Extended.add_unbounded (Or.inl (Extended.add_unbounded (Or.inr third)))
  · exact Extended.add_unbounded (Or.inr fourth)

theorem unbounded_invalid {b : Blend Extended}
    (unbounded : ∃ w ∈ b.weights, Extended.isFinite w = false) : b.isValid = false := by
  have far : ¬ Scalar.abs (b.total - one) < Blend.tolerance :=
    Extended.size_of_unbounded (Extended.sub_unbounded (unbounded_total unbounded) _) _
  rw [Blend.isValid, decide_eq_false far, Bool.and_false]

theorem unbounded_reset {b : Blend Extended}
    (unbounded : ∃ w ∈ b.weights, Extended.isFinite w = false) : b.repair = .default := by
  have reset : (b.weights.any fun w => !isFinite w || w < zero) = true := by
    obtain ⟨w, member, unbounded⟩ := unbounded
    refine List.any_eq_true.mpr ⟨w, member, ?_⟩
    rw [show isFinite w = false from unbounded]
    rfl
  rw [Blend.repair, unbounded_invalid unbounded, Blend.normalize, reset]
  rfl

theorem extended_or_unbounded (b : Blend Extended) :
    (∃ b' : Blend Rat, b = b'.extended) ∨ ∃ w ∈ b.weights, Extended.isFinite w = false := by
  by_cases bounded : ∀ w ∈ b.weights, Extended.isFinite w = true
  · left
    simp only [Blend.weights, List.forall_mem_cons] at bounded
    obtain ⟨first, second, third, fourth, -⟩ := bounded
    obtain ⟨baseline, first⟩ := Extended.finite_of_is_finite first
    obtain ⟨perfection, second⟩ := Extended.finite_of_is_finite second
    obtain ⟨simplicity, third⟩ := Extended.finite_of_is_finite third
    obtain ⟨chaos, fourth⟩ := Extended.finite_of_is_finite fourth
    refine ⟨⟨baseline, perfection, simplicity, chaos⟩, ?_⟩
    rw [Blend.extended, ← first, ← second, ← third, ← fourth]
  · right
    push Not at bounded
    simpa using bounded

/-- Four exact weights, none of them negative, that add up to one or nearly so. -/
def Balanced (b : Blend Extended) : Prop :=
  ∃ weights : Blend Rat, b = weights.extended ∧
    (∀ w ∈ weights.weights, 0 ≤ w) ∧ |weights.total - 1| < 1 / 1000

theorem balanced_iff_valid (b : Blend Extended) : Balanced b ↔ b.isValid = true := by
  rcases extended_or_unbounded b with ⟨weights, rfl⟩ | unbounded
  · rw [extended_valid, blend_valid_iff]
    constructor
    · rintro ⟨same, eq, nonneg, total⟩
      obtain rfl := extended_injective eq
      exact ⟨nonneg, total⟩
    · exact fun valid => ⟨weights, rfl, valid⟩
  · have invalid := unbounded_invalid unbounded
    refine iff_of_false ?_ (by simp [invalid])
    rintro ⟨weights, rfl, -⟩
    obtain ⟨w, member, unbounded⟩ := unbounded
    rw [extended_weights] at member
    obtain ⟨x, -, rfl⟩ := List.mem_map.mp member
    cases unbounded

theorem blend_repair_balanced (b : Blend Extended) : Balanced b.repair := by
  rcases extended_or_unbounded b with ⟨weights, rfl⟩ | unbounded
  · rw [extended_repair]
    exact ⟨weights.repair, rfl, (blend_valid_iff _).mp (repaired_valid weights)⟩
  · rw [unbounded_reset unbounded]
    exact ⟨.default, rfl, by decide +kernel⟩

theorem balanced_kept {b : Blend Extended} (balanced : Balanced b) : b.repair = b :=
  if_pos ((balanced_iff_valid b).mp balanced)

def InOrder (t : Thresholds Extended) : Prop :=
  ∃ human ai : Rat, t.human = .finite human ∧ t.ai = .finite ai ∧
    0 ≤ human ∧ human ≤ ai ∧ ai ≤ 1

theorem in_unit_iff (x : Extended) :
    Thresholds.inUnit x = true ↔ ∃ y, x = .finite y ∧ 0 ≤ y ∧ y ≤ 1 := by
  rw [Thresholds.inUnit, Bool.and_eq_true, Bool.and_eq_true]
  constructor
  · rintro ⟨⟨bounded, low⟩, high⟩
    obtain ⟨y, rfl⟩ := Extended.finite_of_is_finite bounded
    exact ⟨y, rfl, (Extended.finite_at_most 0 y).mp (of_decide_eq_true low),
      (Extended.finite_at_most y 1).mp (of_decide_eq_true high)⟩
  · rintro ⟨y, rfl, low, high⟩
    exact ⟨⟨rfl, decide_eq_true ((Extended.finite_at_most 0 y).mpr low)⟩,
      decide_eq_true ((Extended.finite_at_most y 1).mpr high)⟩

theorem in_order_iff_usable (t : Thresholds Extended) : InOrder t ↔ t.isUsable = true := by
  rw [Thresholds.isUsable, Bool.and_eq_true, Bool.and_eq_true, in_unit_iff, in_unit_iff]
  constructor
  · rintro ⟨human, ai, isHuman, isAi, low, order, high⟩
    refine ⟨⟨⟨ai, isAi, low.trans order, high⟩, human, isHuman, low, order.trans high⟩, ?_⟩
    rw [isHuman, isAi]
    exact decide_eq_true ((Extended.finite_at_most human ai).mpr order)
  · rintro ⟨⟨⟨ai, isAi, -, high⟩, human, isHuman, low, -⟩, order⟩
    rw [isHuman, isAi] at order
    exact ⟨human, ai, isHuman, isAi, low,
      (Extended.finite_at_most human ai).mp (of_decide_eq_true order), high⟩

theorem repair_in_order (t : Thresholds Extended) {default : Thresholds Extended}
    (order : InOrder default) : InOrder (t.repair default) := by
  rw [Thresholds.repair]
  split
  · rename_i usable
    exact (in_order_iff_usable t).mpr usable
  · exact order

theorem in_order_kept {t : Thresholds Extended} (order : InOrder t)
    (default : Thresholds Extended) : t.repair default = t :=
  if_pos ((in_order_iff_usable t).mp order)

end Detection

namespace Config

/- What repaired settings satisfy, and what is kept of the given ones. -/

structure Settings.InRepair (s : Settings Extended) : Prop where
  heuristic : InOrder s.detection.heuristic
  baseline : InOrder s.detection.baseline.thresholds
  blend : Balanced s.detection.baseline.blend
  topCount : 1 ≤ s.baseline.topCount
  styleWeights : s.analysis.styleWeights = s.humanStyle

structure Settings.KeptIn (given s : Settings Extended) : Prop where
  heuristic : InOrder given.detection.heuristic →
    s.detection.heuristic = given.detection.heuristic
  baseline : InOrder given.detection.baseline.thresholds →
    s.detection.baseline.thresholds = given.detection.baseline.thresholds
  blend : Balanced given.detection.baseline.blend →
    s.detection.baseline.blend = given.detection.baseline.blend
  topCount : 1 ≤ given.baseline.topCount → s.baseline.topCount = given.baseline.topCount
  analysis : s.analysis = { given.analysis with styleWeights := given.humanStyle }
  detection : s.detection = { given.detection with
    heuristic := s.detection.heuristic, baseline := s.detection.baseline }
  store : s.baseline = { given.baseline with topCount := s.baseline.topCount }
  humanStyle : s.humanStyle = given.humanStyle

theorem repair_in_repair (given : Settings Extended) : given.repair.InRepair where
  heuristic := repair_in_order _ ((in_order_iff_usable _).mpr (by decide +kernel))
  baseline := repair_in_order _ ((in_order_iff_usable _).mpr (by decide +kernel))
  blend := blend_repair_balanced _
  topCount := by
    change 1 ≤ if given.baseline.topCount = 0 then _ else given.baseline.topCount
    split
    · decide
    · omega
  styleWeights := rfl

theorem kept_in_repair (given : Settings Extended) : given.KeptIn given.repair where
  heuristic order := in_order_kept order _
  baseline order := in_order_kept order _
  blend balanced := balanced_kept balanced
  topCount some := if_neg (by omega)
  analysis := rfl
  detection := rfl
  store := rfl
  humanStyle := rfl

theorem repair_of_in_repair {s : Settings Extended} (good : s.InRepair) : s.repair = s := by
  have kept := kept_in_repair s
  have analysis : s.repair.analysis = s.analysis := by
    rw [kept.analysis, ← good.styleWeights]
  have thresholds : s.repair.detection.baseline = s.detection.baseline := by
    calc s.repair.detection.baseline
        = ⟨s.repair.detection.baseline.thresholds, s.repair.detection.baseline.blend⟩ := rfl
      _ = s.detection.baseline := by rw [kept.baseline good.baseline, kept.blend good.blend]
  have detection : s.repair.detection = s.detection := by
    rw [kept.detection, kept.heuristic good.heuristic, thresholds]
  have store : s.repair.baseline = s.baseline := by
    rw [kept.store, kept.topCount good.topCount]
  calc s.repair = ⟨s.repair.analysis, s.repair.detection, s.repair.baseline, s.humanStyle⟩ := rfl
    _ = s := by rw [analysis, detection, store]

/-- Settings that a TOML text gives, whatever its numbers stand for, are in repair, are those that
the text spells as far as these were in order, and are not changed by repairing them again. -/
theorem parsed_settings_in_repair (read : Decimal.Literal → Extended) (text : String)
    (settings : Settings Extended)
    (parsed : @Settings.parse Extended (Extended.reading read) text = some settings) :
    settings.InRepair ∧ settings.repair = settings ∧
      ∃ root given, Toml.read text = some root ∧
        @decodeSettings Extended (Extended.reading read) .toml
          (@Document.ofToml Extended (Extended.reading read) root) = some given ∧
        settings = given.repair ∧ given.KeptIn settings := by
  obtain ⟨root, spelled, found⟩ := Option.bind_eq_some_iff.mp parsed
  obtain ⟨given, decoded, same⟩ := Option.bind_eq_some_iff.mp found
  obtain rfl : given.repair = settings := Option.some.inj same
  have good := repair_in_repair given
  exact ⟨good, repair_of_in_repair good, root, given, spelled, decoded, rfl, kept_in_repair given⟩

/-- Thresholds the wrong way round, one that is no number, weights of a blend that add up to four
and no features kept. -/
def disorderedText : String := String.join [
  "[detection.heuristic]\nai = 0.2\nhuman = 0.7\n",
  "[detection.baseline]\nai = nan\n",
  "[detection.baseline.blend]\nbaseline = 3\nperfection = 1\nsimplicity = 0\nchaos = 0\n",
  "[baseline]\ntop_k = 0\n"]

theorem disorder_repaired : ∃ settings : Settings Extended,
    @Settings.parse Extended (Extended.reading .ofLiteral) disorderedText = some settings ∧
      settings.InRepair ∧ settings.repair = settings ∧
      settings.detection.baseline.blend =
        ⟨.finite (3 / 4), .finite (1 / 4), .finite 0, .finite 0⟩ := by
  let settings : Settings Extended :=
    { Settings.default with
      detection := { Detection.Settings.default with
        baseline := ⟨BaselineDetector.defaultThresholds,
          ⟨.finite (3 / 4), .finite (1 / 4), .finite 0, .finite 0⟩⟩ } }
  have parsed : @Settings.parse Extended (Extended.reading .ofLiteral) disorderedText =
      some settings := by decide +kernel
  obtain ⟨good, again, -⟩ := parsed_settings_in_repair .ofLiteral disorderedText settings parsed
  exact ⟨settings, parsed, good, again, rfl⟩

end Config

end Authorship
