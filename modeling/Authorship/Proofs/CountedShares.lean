import Authorship.Proofs.CountedItems
import Authorship.Proofs.ExtractedVector

/-
Shares that need no clamping. Each is measured from some of the items of a whole, and so lies
between zero and one before it is stored, except for the overall score of style, which is no count
and is clamped where it is measured. Two densities, of functions and of long lines, can exceed one.
-/
namespace Authorship

open Analysis Feature Pattern Scalar Source

namespace Analysis

/-- Kept in the range of a share, but not counted within what they are divided by. -/
def densities : List String := ["ai_pattern.over_engineering_score", "human_style.long_line_ratio"]

def isCounted (name : String) : Bool :=
  (lookup? name).any (·.limit = .share) && !densities.contains name

variable {α : Type}

section

variable [Scalar α] {scanLimit : Nat} {s : Prepared}

def AllCounted (scanLimit : Nat) (s : Prepared) (ms : Measurements α) : Prop :=
  ∀ entry ∈ ms, isCounted entry.1 = true → Counts scanLimit s entry.1 entry.2

theorem counted_of_filter {ms shares : Measurements α}
    (filtered : ms.filter (isCounted ·.1) = shares)
    (each : ∀ entry ∈ shares, Counts scanLimit s entry.1 entry.2) :
    AllCounted scanLimit s ms := by
  intro entry member counted
  exact each entry (filtered ▸ List.mem_filter.mpr ⟨member, counted⟩)

theorem comment_share_counted (text filename : String) :
    let s := prepare text filename
    Counts scanLimit s "basic.comment_ratio" (perCount s.commentLines s.totalLines : α) := by
  intro s
  obtain ⟨segments, fit, whole⟩ :=
    every_text_has_a_segmentation (Text.withoutCarriageReturns text.toList)
  obtain ⟨closed, opened⟩ := commented_lines filename fit whole
  by_cases openEnd : OpenAfterNewline segments
  · rw [opened openEnd, List.countP_eq_length_filter]
    exact .openComment fit whole openEnd
  · rw [closed openEnd]
    exact .items (.commentLines fit whole openEnd) (share_of_places rfl)

theorem basic_counted (text filename : String) :
    let s := prepare text filename
    AllCounted scanLimit s (inGroup "basic" (basicMeasurements s : Measurements α)) := by
  intro s
  have filtered : (inGroup "basic" (basicMeasurements s : Measurements α)).filter
      (isCounted ·.1) = [("basic.comment_ratio", perCount s.commentLines s.totalLines),
        ("basic.blank_ratio", perCount s.blankLines s.totalLines)] := by rfl
  refine counted_of_filter filtered ?_
  simp only [List.forall_mem_cons]
  exact ⟨comment_share_counted text filename,
    .items .blankLines (share_of_kind Text.isBlankLine s.rawLines), List.forall_mem_nil _⟩

theorem declared_share (p : List Char → Bool) : ShareOf (.of p (declaredNames s))
    (perCount ((declaredNames s).countP p) (Lexicon.declarations s.masked).length : α) := by
  rw [← declared_names_length]
  exact share_of_kind p (declaredNames s)

theorem unique_share : ShareOf (.distinct (declaredNames s))
    (perCount (declaredNames s).eraseDups.length (Lexicon.declarations s.masked).length : α) := by
  rw [← declared_names_length]
  exact .perCount

theorem spacing_share : ShareOf (.of isSpaced (codeSpacings s))
    (operatorSpacingConsistency s.maskedLines : α) := by
  change ShareOf _ (if (codeSpacings s).isEmpty then zero
    else count ((codeSpacings s).countP isSpaced) / count (codeSpacings s).length)
  split
  · rename_i empty
    rw [List.isEmpty_iff.mp empty]
    exact .nothing rfl
  · rename_i some
    have nonempty : codeSpacings s ≠ [] := fun none => some (by rw [none]; rfl)
    rw [List.countP_eq_length_filter]
    exact .quotient nonempty

structure Metrics.Shares (m : Metrics α) (s : Prepared) : Prop where
  indentation : ShareOf (.dominant (· == ' ') (· == '\t') (s.codeLines.filterMap List.head?))
    m.indentationConsistency
  braces : ShareOf
    (.dominant (· == true) (· == false) (s.maskedLines.filterMap bracePlacement?))
    m.braceStyleConsistency
  operators : ShareOf (.of isSpaced (codeSpacings s)) m.operatorSpacingConsistency
  camelCase : ShareOf (.of Lexicon.isCamelCase (declaredNames s))
    (perCount m.camelCaseVars m.variableCount : α)
  snakeCase : ShareOf (.of Lexicon.isSnakeCase (declaredNames s))
    (perCount m.snakeCaseVars m.variableCount : α)
  singleChar : ShareOf
    (.of (fun d => d.name.length = 1 && !d.inForHeader) (Lexicon.declarations s.masked))
    (perCount m.singleCharVars m.variableCount : α)
  hungarian : ShareOf (.of Lexicon.isHungarian (declaredNames s))
    (perCount m.hungarianNotation m.variableCount : α)
  uniqueNames : ShareOf (.distinct (declaredNames s))
    (perCount m.uniqueVariableNames m.variableCount : α)
  recursive : ShareOf (.of (·.isRecursive s.masked) s.functions)
    (perCount m.recursiveFunctions m.functionCount : α)

theorem shares_without_code (no_code : s.codeLines = []) (no_lines : s.maskedLines = [])
    (no_functions : s.functions = []) : (Metrics.none : Metrics α).Shares s := by
  have no_variables : Lexicon.declarations s.masked = [] := by
    rw [Prepared.masked, no_lines]
    decide +kernel
  have no_names : declaredNames s = [] := by rw [declaredNames, no_variables, List.map_nil]
  have no_spacings : codeSpacings s = [] := by rw [codeSpacings, no_lines]; rfl
  constructor
  · rw [no_code]
    exact .nothing rfl
  · rw [no_lines]
    exact .nothing rfl
  · rw [no_spacings]
    exact .nothing rfl
  · rw [no_names]
    exact .perCount
  · rw [no_names]
    exact .perCount
  · rw [no_variables]
    exact .perCount
  · rw [no_names]
    exact .perCount
  · rw [no_names]
    exact .perCount
  · rw [no_functions]
    exact .perCount

theorem shares_of_code (some : ¬s.isEmpty = true) :
    (structureMetrics s : Metrics α).Shares s := by
  unfold structureMetrics
  rw [if_neg some]
  exact {
    indentation := share_of_dominant (· == ' ') (· == '\t') (s.codeLines.filterMap List.head?)
    braces := share_of_dominant (· == true) (· == false) (s.maskedLines.filterMap bracePlacement?)
    operators := spacing_share
    camelCase := declared_share Lexicon.isCamelCase
    snakeCase := declared_share Lexicon.isSnakeCase
    singleChar := share_of_kind _ _
    hungarian := declared_share Lexicon.isHungarian
    uniqueNames := unique_share
    recursive := share_of_kind _ _ }

theorem structure_shares (text filename : String) :
    (structureMetrics (prepare text filename) : Metrics α).Shares (prepare text filename) := by
  by_cases empty : (prepare text filename).isEmpty = true
  · have no_code : (prepare text filename).codeLines = [] := List.isEmpty_iff.mp empty
    have no_lines : (prepare text filename).maskedLines = [] := by
      rw [← List.length_eq_zero_iff, ← code_lines_length, no_code, List.length_nil]
    have no_functions : (prepare text filename).functions = [] := by
      rw [functions_of_masked, no_lines]
      decide +kernel
    rw [structureMetrics, if_pos empty]
    exact shares_without_code no_code no_lines no_functions
  · exact shares_of_code empty

theorem metrics_counted {m : Metrics α} (shares : m.Shares s) :
    AllCounted scanLimit s (inGroup "ast" m.measurements) := by
  have filtered : (inGroup "ast" m.measurements).filter (isCounted ·.1) =
      [("ast.indentation_consistency", m.indentationConsistency),
        ("ast.brace_style_consistency", m.braceStyleConsistency),
        ("ast.operator_spacing_consistency", m.operatorSpacingConsistency),
        ("ast.camel_case_ratio", perCount m.camelCaseVars m.variableCount),
        ("ast.snake_case_ratio", perCount m.snakeCaseVars m.variableCount),
        ("ast.single_char_vars_ratio", perCount m.singleCharVars m.variableCount),
        ("ast.hungarian_ratio", perCount m.hungarianNotation m.variableCount),
        ("ast.variable_uniqueness_ratio", perCount m.uniqueVariableNames m.variableCount),
        ("ast.recursive_function_ratio", perCount m.recursiveFunctions m.functionCount)] := by rfl
  refine counted_of_filter filtered ?_
  simp only [List.forall_mem_cons]
  exact ⟨.items .indentation shares.indentation, .items .braces shares.braces,
    .items .operators shares.operators, .items .camelCase shares.camelCase,
    .items .snakeCase shares.snakeCase, .items .singleChar shares.singleChar,
    .items .hungarian shares.hungarian, .items .uniqueNames shares.uniqueNames,
    .items .recursive shares.recursive, List.forall_mem_nil _⟩

theorem duplicate_share : ShareOf (.of (RepeatsAt (trimmedLines s) ·) (List.range s.loc))
    (perCount (duplicateLines (intern (trimmedLines s))) s.loc : α) := by
  refine share_of_places ?_
  rw [duplicateLines, extra_interned, ← repeats_counted, trimmed_lines_length]

theorem copied_counted (scanLimit : Nat) (s : Prepared) :
    ∃ positions, Copied scanLimit (intern (trimmedLines s)) positions ∧
      (List.range s.loc).countP (· ∈ positions) =
        copiedLines scanLimit (intern (trimmedLines s)) := by
  have length : (intern (trimmedLines s)).length = s.loc :=
    (intern_length _).trans (trimmed_lines_length s)
  obtain ⟨positions, copied, card⟩ := copied_positions scanLimit (intern (trimmedLines s))
  have inside := copied_inside copied
  rw [length] at inside
  exact ⟨positions, copied, (positions_counted inside).trans card⟩

theorem twin_share : ShareOf (.of (· ∈ twins s) (List.finRange s.functions.length))
    (similarFunctionRatio s : α) := by
  rw [ratio_counts_shapes]
  split
  · rename_i few
    refine .nothing (List.filter_eq_nil_iff.mpr fun i _ twin => ?_)
    obtain ⟨-, -, j, other, -⟩ := Finset.mem_filter.mp (of_decide_eq_true twin)
    omega
  · have counted := members_counted (twins s) (List.nodup_finRange s.functions.length)
      fun i _ => List.mem_finRange i
    have share : ShareOf (.of (· ∈ twins s) (List.finRange s.functions.length)) (_ : α) :=
      share_of_kind _ _
    rwa [counted, List.length_finRange, ← twin_count_card] at share

theorem redundancy_counted : AllCounted scanLimit s
    (inGroup "redundancy" (redundancyMeasurements scanLimit s : Measurements α)) := by
  have filtered : (inGroup "redundancy"
      (redundancyMeasurements scanLimit s : Measurements α)).filter (isCounted ·.1) =
        [("redundancy.duplicate_line_ratio",
            perCount (duplicateLines (intern (trimmedLines s))) s.loc),
          ("redundancy.copy_paste_score",
            perCount (copiedLines scanLimit (intern (trimmedLines s))) s.loc),
          ("redundancy.similar_function_ratio", similarFunctionRatio s)] := by rfl
  obtain ⟨positions, copied, places⟩ := copied_counted scanLimit s
  refine counted_of_filter filtered ?_
  simp only [List.forall_mem_cons]
  exact ⟨.items .duplicates duplicate_share, .items (.copied copied) (share_of_places places),
    .items .similar twin_share, List.forall_mem_nil _⟩

theorem naming_counted :
    AllCounted scanLimit s (inGroup "naming" (namingMeasurements s : Measurements α)) := by
  intro entry member _
  simp only [inGroup, namingMeasurements, List.map_cons, List.map_nil, List.mem_cons,
    List.not_mem_nil, or_false] at member
  rcases member with rfl | rfl | rfl | rfl | rfl | rfl | rfl
  · exact .items .descriptive (share_of_kind _ _)
  · exact .items .generic (share_of_kind _ _)
  · exact .items .verbs (share_of_kind _ _)
  · exact .items .longNames (share_of_kind _ _)
  · exact .items .meaningful (share_of_kind _ _)
  · exact .items .nameStyle (share_of_dominant _ _ _)
  · exact .items .abbreviations (share_of_kind _ _)

theorem idiom_counted :
    AllCounted scanLimit s (inGroup "ai_pattern" (idiomMeasurements s : Measurements α)) := by
  have filtered : (inGroup "ai_pattern" (idiomMeasurements s : Measurements α)).filter
      (isCounted ·.1) =
        [("ai_pattern.boilerplate_ratio", perCount (s.codeLines.countP isBoilerplate) s.loc),
          ("ai_pattern.formal_comment_ratio",
            perCount (s.lineComments.countP (opens formalComment)) s.lineComments.length)] := by rfl
  refine counted_of_filter filtered ?_
  simp only [List.forall_mem_cons]
  exact ⟨.items .boilerplate (share_of_kind _ _), .items .formalComments (share_of_kind _ _),
    List.forall_mem_nil _⟩

theorem trailing_share : ShareOf (.of endsWithBlank (nonblankRaw s))
    (perCount (spacingIssues s).trailing (spacingIssues s).nonblankLines : α) := by
  rw [spacingIssues, List.partition_eq_filter_filter]
  exact share_of_kind endsWithBlank (nonblankRaw s)

theorem style_counted : AllCounted scanLimit s
    (inGroup "human_style" (styleMeasurements .default s : Measurements α)) := by
  have filtered : (inGroup "human_style" (styleMeasurements .default s : Measurements α)).filter
      (isCounted ·.1) =
        [("human_style.trailing_whitespace_ratio",
            perCount (spacingIssues s).trailing (spacingIssues s).nonblankLines),
          ("human_style.mixed_indentation_ratio", perCount (indentationIssues s.rawLines).mixed
            (indentationIssues s.rawLines).indentedLines),
          ("human_style.overall_human_score", (styleIssues s).overall .default)] := by rfl
  refine counted_of_filter filtered ?_
  simp only [List.forall_mem_cons]
  exact ⟨.items .trailingBlanks trailing_share, .items .mixedIndentation (share_of_kind _ _),
    .overall, List.forall_mem_nil _⟩

end

section

variable [Analytic α] {scanLimit : Nat}

theorem complexity_counted {s : Prepared} :
    AllCounted scanLimit s (inGroup "complexity" (complexityMeasurements s : Measurements α)) := by
  have filtered : (inGroup "complexity" (complexityMeasurements s : Measurements α)).filter
      (isCounted ·.1) = [] := by rfl
  exact counted_of_filter filtered (List.forall_mem_nil _)

def scanning (scanLimit : Nat) : Settings α := { Settings.default with scanLimit }

theorem measured_counted (text filename : String) :
    let s := prepare text filename
    AllCounted scanLimit s (measurements (scanning scanLimit) s : Measurements α) := by
  intro s entry member
  rcases List.mem_append.mp member with basic | other
  · exact basic_counted text filename entry basic
  · obtain ⟨family, -, found⟩ := List.mem_flatMap.mp other
    cases family with
    | structural => exact metrics_counted (structure_shares text filename) entry found
    | redundancy => exact redundancy_counted entry found
    | naming => exact naming_counted entry found
    | complexity => exact complexity_counted entry found
    | aiPattern => exact idiom_counted entry found
    | humanStyle => exact style_counted entry found

end

theorem sanitize_within [Scalar α] {x : α} (isNumber : isNaN x = false) (finite : isFinite x = true)
    (notBelow : ¬x < zero) (notAbove : ¬one < x) : Limit.share.bound.sanitize x = x := by
  rw [Bound.sanitize, isNumber, finite]
  simp [Limit.bound, clamp, notBelow, notAbove]

theorem sanitize_share_exact {x : Rat} (share : IsShare x) : Limit.share.bound.sanitize x = x :=
  sanitize_within rfl rfl (not_lt.mpr share.1) (not_lt.mpr share.2)

theorem double_share_finite {x : Float} (share : IsShare x) : x.isFinite = true := by
  change x.toModel.unpack.isFinite = true
  have above := (double_le_iff _ _).mp share.1
  have below := (double_le_iff _ _).mp share.2
  rw [compareDoubles, zero_unpacked] at above
  rw [compareDoubles, one_unpacked] at below
  cases kind : x.toModel.unpack with
  | notANumber =>
    rw [kind] at above
    exact absurd above (by decide)
  | infinity s =>
    rw [kind] at above below
    cases s with
    | positive => exact absurd below (by decide)
    | negative => exact absurd above (by decide)
  | zero s => rfl
  | finite s m e h => rfl

theorem sanitize_share_double {x : Float} (share : IsShare x) :
    Limit.share.bound.sanitize x = x := by
  have finite := double_share_finite share
  exact sanitize_within (finite_is_number finite) finite
    (fun less => not_le_of_double_lt less share.1) (fun less => not_le_of_double_lt less share.2)

/- A share that is measured once, from counts, and stored as it was measured. -/
structure Unclamped [Analytic α] (scanLimit : Nat) (text filename name : String) (x : α) :
    Prop where
  measured : ∀ y, (name, y) ∈ measurements (scanning scanLimit)
    (prepare text filename) ↔ y = x
  counted : Counts scanLimit (prepare text filename) name x
  share : IsShare x
  stored : (extract (scanning scanLimit) text filename).get? name = some x

theorem unclamped_of_share [Analytic α] (scanLimit : Nat) (text filename : String) {spec : Spec}
    (member : spec ∈ schema) (limited : spec.limit = .share) (other : spec.name ∉ densities)
    (share : ∀ x : α, Counts scanLimit (prepare text filename) spec.name x → IsShare x)
    (kept : ∀ x : α, IsShare x → Limit.share.bound.sanitize x = x) :
    ∃ x : α, Unclamped scanLimit text filename spec.name x := by
  have known := (lookup_eq_some_iff spec.name spec).mpr ⟨member, rfl⟩
  have counted : isCounted spec.name = true := by simp [isCounted, known, limited, other]
  obtain ⟨x, measured⟩ : ∃ x : α, (spec.name, x) ∈
      measurements (scanning scanLimit) (prepare text filename) := by
    obtain ⟨⟨name, x⟩, measured, rfl⟩ := (known_iff_measured (scanning scanLimit : Settings α)
      (prepare text filename) spec.name).mp ⟨spec, member, rfl⟩
    exact ⟨x, measured⟩
  have once := names_measured_once (scanning scanLimit : Settings α) (prepare text filename)
  have fromCounts := measured_counted text filename _ measured counted
  refine ⟨x, ⟨fun y => ⟨fun again => ?_, ?_⟩, fromCounts, share x fromCounts, ?_⟩⟩
  · exact (Prod.mk.inj (List.inj_on_of_nodup_map once again measured rfl)).2
  · rintro rfl
    exact measured
  · rw [extract, extracted_value _ _ measured]
    simp only [sanitizeNamed, known, limited, kept x (share x fromCounts)]

end Analysis

/-- Whatever the text and the limit are, every share but the two densities is measured once, lies
between zero and one, and is stored as it was measured. The overall score of style apart, it counts
items among those that it is divided by, except for the lines with a comment where a text ends with
a newline in a block comment. A text that no machine can address could have more lines than a double
can count. -/
theorem shares_need_no_clamp (scanLimit : Nat) (text filename : String) {spec : Spec}
    (member : spec ∈ schema) (limited : spec.limit = .share) (other : spec.name ∉ densities) :
    (∀ f : RootsAndLogs, ∃ x : Rat,
      @Unclamped Rat (exactly f) scanLimit text filename spec.name x) ∧
    (text.length < 2 ^ 64 → ∃ x : Float, Unclamped scanLimit text filename spec.name x) := by
  constructor
  · intro f
    let _ := exactly f
    exact unclamped_of_share scanLimit text filename member limited other
      (fun _ => counted_share_exact) fun _ => sanitize_share_exact
  · intro length
    exact unclamped_of_share scanLimit text filename member limited other
      (fun _ => counted_share_double (prepared_sized text filename) (whole_bound_small length))
      fun _ => sanitize_share_double

theorem brace_share_unclamped :
    ∃ spec ∈ schema, spec.name = "ast.brace_style_consistency" ∧ spec.limit = .share ∧
      spec.name ∉ densities ∧ "if (a) \x7b\n\x7d\n".length < 2 ^ 64 ∧
      (∀ f : RootsAndLogs, ∃ x : Rat,
        @Unclamped Rat (exactly f) 5000 "if (a) \x7b\n\x7d\n" "a.c" spec.name x) ∧
      ∃ x : Float, Unclamped 5000 "if (a) \x7b\n\x7d\n" "a.c" spec.name x := by
  have member : ⟨"ast.brace_style_consistency", .share, "Dominance of one brace placement"⟩ ∈
      schema := by decide +kernel
  have short : "if (a) \x7b\n\x7d\n".length < 2 ^ 64 := by decide +kernel
  have unclamped := shares_need_no_clamp 5000 "if (a) \x7b\n\x7d\n" "a.c" member rfl (by decide)
  exact ⟨_, member, rfl, rfl, by decide, short, unclamped.1, unclamped.2 short⟩

/-- Of two lines one has a comment, and the share of the lines with a comment is one. -/
theorem comment_share_counts_no_line :
    let s := prepare "a;\n/* b\n" "x.c"
    let segments : List Segment :=
      [.plain 'a', .plain ';', .plain '\n', .blockComment [' ', 'b', '\n'] false]
    let commented := commentedAmong segments s.totalLines
    Segmentation segments ∧ textOf segments = Text.withoutCarriageReturns s.raw ∧
      commented.counted.length = 1 ∧ commented.whole.length = 2 ∧
      ("basic.comment_ratio", (1.0 : Float)) ∈ measurements (scanning 5000) s ∧
      ¬ ShareOf commented (1.0 : Float) := by
  intro s segments commented
  have one : commented.counted.length = 1 := by decide
  have two : commented.whole.length = 2 := by decide
  have half : ∀ x : Float, ShareOf commented x → x = 0.5 := by
    intro x share
    cases share with
    | nothing none => exact absurd one (by rw [none]; decide)
    | quotient some =>
      rw [one, two]
      decide +kernel
    | perCount =>
      rw [one, two]
      decide +kernel
  have measured : ("basic.comment_ratio", (perCount s.commentLines s.totalLines : Float)) ∈
      measurements (scanning 5000) s := List.mem_append_left _ (List.mem_of_getElem? (i := 4) rfl)
  have whole : (perCount s.commentLines s.totalLines : Float) = 1.0 := by decide +kernel
  refine ⟨⟨rfl, rfl, rfl, ⟨by decide, rfl⟩, trivial⟩, by decide, one, two, ?_, ?_⟩
  · rwa [whole] at measured
  · intro share
    exact absurd (half _ share) (by decide +kernel)

end Authorship
