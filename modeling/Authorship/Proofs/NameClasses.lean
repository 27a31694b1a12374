import Authorship.Proofs.CountedShares
import Authorship.Proofs.DoubleHalves

/-
Classes of names. A name in camel case has no underscore and one in snake case has one; descriptive
names and abbreviations are not generic. So no name is counted on both sides where two shares of the
same names are set against each other, however often it is declared, and of two such kinds the more
frequent one makes up at least half of both.
-/
namespace Authorship

open Analysis Lexicon Pattern Scalar

namespace Lexicon

/- What a name in each case consists of. -/

theorem covered_spelled {p : Pattern} {L : Language Char} {text : List Char}
    (spells : Spells p L) (covered : covers p text = true) : text ∈ L := by
  rw [covers, opens, matchAt?, Option.isSome_map, List.isSome_head?] at covered
  obtain ⟨stop, led⟩ := List.exists_mem_of_ne_nil _ covered
  obtain ⟨last, led, ended⟩ := mem_sequence_cons.mp led
  obtain ⟨cs, inside, read⟩ := spells _ last led
  have none : last.ahead = [] := by
    have ended : stop ∈ atEnd last := ended
    unfold atEnd at ended
    split at ended <;> simp_all
  have whole : text = cs ++ last.ahead := read.ahead
  rw [whole, none, List.append_nil]
  exact inside

theorem alphanumeric_of_lower {c : Char} (lower : c.isLower = true) : c.isAlphanum = true := by
  simp [Char.isAlphanum, Char.isAlpha, lower]

theorem alphanumeric_of_upper {c : Char} (upper : c.isUpper = true) : c.isAlphanum = true := by
  simp [Char.isAlphanum, Char.isAlpha, upper]

theorem alphanumeric_of_lower_or_digit {c : Char} (holds : isLowerOrDigit c = true) :
    c.isAlphanum = true := by
  rcases Bool.or_eq_true_iff.mp holds with lower | digit
  · exact alphanumeric_of_lower lower
  · simp [Char.isAlphanum, digit]

theorem spells_camel_case : Spells camelCase (allOf Char.isAlphanum) := by
  have one {q : Char → Bool} (each : ∀ c, q c = true → c.isAlphanum = true) :
      Spells (satisfying q) (allOf Char.isAlphanum) := by
    refine (spells_satisfying q).mono ?_
    rintro cs ⟨c, holds, rfl⟩
    exact List.forall_mem_singleton.mpr (each c holds)
  have many {q : Char → Bool} (each : ∀ c, q c = true → c.isAlphanum = true) :
      Spells (span q) (allOf Char.isAlphanum) :=
    (spells_span q).mono fun cs all c member => each c (all c member)
  have first := one (q := Char.isLower) fun _ => alphanumeric_of_lower
  have second := many (q := isLowerOrDigit) fun _ => alphanumeric_of_lower_or_digit
  have third := one (q := Char.isUpper) fun _ => alphanumeric_of_upper
  have last := (many (q := Char.isAlphanum) fun _ => id).last
  have same : ∀ cs ∈ allOf Char.isAlphanum, cs ∈ allOf Char.isAlphanum := fun _ => id
  exact (first.cons (second.cons (third.cons last))).mono
    (all_of_mul same (all_of_mul same (all_of_mul same same)))

theorem camel_without_underscore {name : List Char} (camel : isCamelCase name = true) :
    '_' ∉ name := by
  intro member
  have alphanumeric := covered_spelled spells_camel_case camel '_' member
  exact absurd alphanumeric (by decide)

theorem spells_snake_case :
    Spells snakeCase (⊤ * (⊤ * (anyOf [['_']] * ⊤ * ⊤))) := by
  have part : Spells snakePart (anyOf [['_']] * ⊤) :=
    (spells_char '_').cons
      (spells_nonempty_run (spells_span isLowerOrDigit)).any.last
  exact (spells_satisfying Char.isLower).any.cons
    ((spells_span isLowerOrDigit).any.cons (part.cons part.many.any.last))

theorem snake_with_underscore {name : List Char} (snake : isSnakeCase name = true) :
    '_' ∈ name := by
  obtain ⟨first, -, others, inOthers, rfl⟩ :=
    Language.mem_mul.mp (covered_spelled spells_snake_case snake)
  obtain ⟨second, -, parts, inParts, rfl⟩ := Language.mem_mul.mp inOthers
  obtain ⟨part, inPart, last, -, rfl⟩ := Language.mem_mul.mp inParts
  obtain ⟨sign, underscore, rest, -, rfl⟩ := Language.mem_mul.mp inPart
  obtain rfl : sign = ['_'] := List.mem_singleton.mp underscore
  simp

theorem camel_is_not_snake {name : List Char} (camel : isCamelCase name = true) :
    isSnakeCase name = false := by
  rw [Bool.eq_false_iff]
  intro snake
  exact camel_without_underscore camel (snake_with_underscore snake)

end Lexicon

namespace Analysis

/- Counts of names that are apart. -/

theorem counted_apart {β : Type} {p q : β → Bool} (apart : ∀ x, p x = true → q x = false)
    (xs : List β) : xs.countP p + xs.countP q ≤ xs.length := by
  have parts : xs.length = xs.countP p + xs.countP (!p ·) := by
    simpa using xs.length_eq_countP_add_countP p
  rw [parts]
  refine Nat.add_le_add_left (List.countP_mono_left fun x _ holds => ?_) _
  rw [Bool.not_eq_true']
  cases first : p x with
  | false => rfl
  | true => exact absurd holds (by simp [apart x first])

theorem generic_is_not_descriptive {name : List Char} (generic : isGeneric name = true) :
    isDescriptive name = false := by
  simp [isDescriptive, generic]

theorem generic_is_no_abbreviation {name : List Char} (generic : isGeneric name = true) :
    isAbbreviation name = false := by
  simp [isAbbreviation, generic]

/- The more frequent of two kinds. -/

def NoneOrMajority {α : Type} [Scalar α] (x : α) : Prop := x = zero ∨ 0.5 ≤ x

theorem larger_at_least_half (a b : Nat) : a + b ≤ 2 * max a b := by omega

theorem dominance_exact (a b : Nat) : NoneOrMajority (dominance a b : Rat) := by
  unfold dominance
  split
  · exact Or.inl rfl
  · rename_i some
    right
    have positive : (0 : Rat) < (a + b : Nat) := by exact_mod_cast Nat.pos_of_ne_zero some
    have half : ((a + b : Nat) : Rat) ≤ 2 * (max a b : Nat) := by
      exact_mod_cast larger_at_least_half a b
    rw [exact_count, exact_count, le_div_iff₀ positive, show (0.5 : Rat) = 1 / 2 by norm_num]
    linarith

theorem dominance_double {a b : Nat} (small : a + b < 2 ^ 256) :
    NoneOrMajority (dominance a b : Float) := by
  unfold dominance
  split
  · exact Or.inl rfl
  · rename_i some
    exact Or.inr (half_le_quotient (larger_at_least_half a b) (Nat.pos_of_ne_zero some) small
      (by omega))

section

variable {α : Type}

theorem metrics_apart [Scalar α] (s : Source.Prepared) :
    let m : Metrics α := structureMetrics s
    m.camelCaseVars + m.snakeCaseVars ≤ m.variableCount := by
  dsimp only
  unfold structureMetrics
  split
  · exact Nat.le_refl 0
  · exact (counted_apart (fun _ => camel_is_not_snake) _).trans (List.length_map _).le

theorem consistency_measured [Analytic α] (scanLimit : Nat) (s : Source.Prepared) :
    let names := (identifiers s.maskedLines).eraseDups
    ("naming.naming_consistency_score",
      (dominance (names.countP isCamelCase) (names.countP isSnakeCase) : α)) ∈
        measurements (scanning scanLimit) s := by
  have enabled : Family.naming ∉ (scanning scanLimit : Settings α).disabled := List.not_mem_nil
  intro names
  have measured : ("naming_consistency_score", dominance (names.countP isCamelCase)
      (names.countP isSnakeCase)) ∈ Family.naming.measure (scanning scanLimit : Settings α) s := by
    simp [Family.measure, namingMeasurements, names]
  exact family_measured _ s enabled measured

end

end Analysis

/-- No name is in camel case and in snake case. Of the names a text declares, as often as each is
declared, the generic ones and the descriptive ones are no more than all, and so are the generic
ones and the abbreviations and the two cases; the measured shares are those of these counts. The
score for consistency, measured and stored, is zero or at least one half. -/
theorem name_classes_apart :
    (∀ name : List Char, ¬(isCamelCase name = true ∧ isSnakeCase name = true)) ∧
    ∀ (scanLimit : Nat) (text filename : String),
      let s := Source.prepare text filename
      let names := (declarations s.masked).map (·.name)
      (names.countP isGeneric + names.countP isDescriptive ≤ names.length ∧
        names.countP isGeneric + names.countP isAbbreviation ≤ names.length ∧
        names.countP isCamelCase + names.countP isSnakeCase ≤ names.length) ∧
      (∀ (α : Type) [Scalar α],
        ([("generic_var_ratio", perCount (names.countP isGeneric) names.length),
          ("descriptive_var_ratio", perCount (names.countP isDescriptive) names.length),
          ("abbreviation_ratio", perCount (names.countP isAbbreviation) names.length)] ⊆
            (namingMeasurements s : Measurements α)) ∧
        let m : Metrics α := structureMetrics s
        m.camelCaseVars + m.snakeCaseVars ≤ m.variableCount) ∧
      (∀ f : RootsAndLogs, ∃ x : Rat,
        @Unclamped Rat (exactly f) scanLimit text filename "naming.naming_consistency_score" x ∧
          NoneOrMajority x) ∧
      (text.length < 2 ^ 64 → ∃ x : Float,
        Unclamped scanLimit text filename "naming.naming_consistency_score" x ∧
          NoneOrMajority x) := by
  refine ⟨?_, ?_⟩
  · rintro name ⟨camel, snake⟩
    rw [camel_is_not_snake camel] at snake
    cases snake
  intro scanLimit text filename s names
  have member : ⟨"naming.naming_consistency_score", .share,
      "Dominance of camelCase or snake_case"⟩ ∈ Feature.schema := by decide +kernel
  have sized : Sized s (text.length + 1) := prepared_sized text filename
  refine ⟨⟨counted_apart (fun _ => generic_is_not_descriptive) _,
    counted_apart (fun _ => generic_is_no_abbreviation) _,
    counted_apart (fun _ => camel_is_not_snake) _⟩, ?_, ?_, ?_⟩
  · intro α _
    refine ⟨?_, metrics_apart s⟩
    intro entry listed
    simp only [namingMeasurements, List.mem_cons, List.not_mem_nil, or_false] at listed ⊢
    rcases listed with rfl | rfl | rfl <;> simp [names]
  · intro f
    let _ := exactly f
    obtain ⟨x, unclamped⟩ := unclamped_of_share scanLimit text filename member rfl (by decide)
      (fun _ => counted_share_exact) fun _ => sanitize_share_exact
    refine ⟨x, unclamped, ?_⟩
    rw [← (unclamped.measured _).mp (consistency_measured scanLimit s)]
    exact dominance_exact _ _
  · intro length
    obtain ⟨x, unclamped⟩ := unclamped_of_share scanLimit text filename member rfl (by decide)
      (fun _ => counted_share_double sized (whole_bound_small length))
      fun _ => sanitize_share_double
    refine ⟨x, unclamped, ?_⟩
    rw [← (unclamped.measured _).mp (consistency_measured scanLimit s)]
    have few : (identifiers s.maskedLines).eraseDups.length ≤ text.length + 1 :=
      (distinct_sublist _).length_le.trans ((identifiers_length _).trans sized.masked)
    have kinds := counted_apart (p := isCamelCase) (q := isSnakeCase)
      (fun _ => camel_is_not_snake) (identifiers s.maskedLines).eraseDups
    exact dominance_double (by omega)

theorem two_cases_keep_majority :
    "int itemCount, item_total;".length < 2 ^ 64 ∧
      ∃ x : Float, Unclamped 5000 "int itemCount, item_total;" "a.c"
        "naming.naming_consistency_score" x ∧ NoneOrMajority x := by
  have short : "int itemCount, item_total;".length < 2 ^ 64 := by decide +kernel
  exact ⟨short, (name_classes_apart.2 5000 "int itemCount, item_total;" "a.c").2.2.2 short⟩

end Authorship
