import Authorship.Proofs.OperandPatterns
import Authorship.Proofs.Totals

/-
Operators between operands that touch them. Both measures of spacing find an operator together with
what stands on either side of it, and matches do not overlap. So an operand that two operators share
can be used up by the first of them: in the indicators of a human style that is an operand of one
character, in the structure of a file any operand at all.
-/
namespace Authorship.Analysis

open Pattern

theorem operand_end_taken {before ahead : List Char} {c : Char} (wordy : Text.isWord c = true) :
    operandEnd ⟨before, [], c :: ahead⟩ = [⟨before, [c], ahead⟩] :=
  if_pos (by simp [wordy])

theorem operand_start_taken {before ahead taken : List Char} {c : Char}
    (wordy : Text.isWord c = true) :
    operandStart ⟨before, taken, c :: ahead⟩ = [⟨before, c :: taken, ahead⟩] :=
  if_pos (by simp [wordy])

theorem operand_end_none (before : List Char) (c : Char) (ahead : List Char)
    (word : Text.isWord c = false) (mark : isMark c = false) :
    operandEnd ⟨before, [], c :: ahead⟩ = [] := by
  refine if_neg ?_
  simp only [isMark, List.contains_cons, Bool.or_eq_false_iff, beq_eq_false_iff_ne] at mark
  simp [word, mark]

theorem word_passed {before ws rest : List Char} (wordy : ws ∈ allOf Text.isWord)
    (goesOn : rest.head?.all Text.isWord = true) :
    spacingsFrom operandEnd judgedSigns operandStart before (ws ++ rest) =
      spacingsFrom operandEnd judgedSigns operandStart (ws.reverse ++ before) rest := by
  refine spacings_passed fun passed c later split => ?_
  rw [split] at wordy
  have here : Text.isWord c = true := wordy c (List.mem_append_right _ List.mem_cons_self)
  have ahead : (later ++ rest).head?.all Text.isWord = true := by
    cases later with
    | nil => exact goesOn
    | cons d later =>
      exact wordy d (List.mem_append_right _ (List.mem_cons_of_mem _ List.mem_cons_self))
  have visible : (later ++ rest).head?.any Text.isBlank = false := by
    cases form : later ++ rest with
    | nil => rfl
    | cons d others =>
      rw [form] at ahead
      exact word_no_blank ahead
  rw [operation_at, operand_end_taken here, List.flatMap_singleton, blanks_stay visible,
    List.flatMap_singleton, judged_signs_take.notWord _ _ _ ahead]
  rfl

/-- How many operators are judged, given how many characters of the operand before them are left
and how long those after them are. A judged operator takes one character of the operand before
it and one of the operand after it. -/
def judgedCount : Nat → List Nat → Nat
  | _, [] => 0
  | 0, n :: ns => judgedCount n ns
  | _ + 1, n :: ns => judgedCount (n - 1) ns + 1

def lengths (links : Links) : List Nat := links.map (·.2.text.length)

theorem judged_spacings (links : Links) {before ws : List Char} (wordy : ws ∈ allOf Text.isWord) :
    spacingsFrom operandEnd judgedSigns operandStart before (ws ++ linksText links) =
      List.replicate (judgedCount ws.length (lengths links)) ⟨[], []⟩ := by
  induction links generalizing before ws with
  | nil =>
    rw [linksText, List.flatMap_nil, word_passed wordy rfl]
    rfl
  | cons link links ih =>
    obtain ⟨o, d⟩ := link
    rw [links_text_cons]
    rcases List.eq_nil_or_concat' ws with rfl | ⟨ws, c, rfl⟩
    · rw [List.nil_append, operator_passed operand_end_none, ih d.wordy]
      rfl
    · obtain ⟨e, es, form⟩ := List.exists_cons_of_ne_nil d.nonempty
      have first : ws ∈ allOf Text.isWord := fun x member =>
        wordy x (List.mem_append_left _ member)
      have last : Text.isWord c = true := wordy c (List.mem_append_right _ List.mem_cons_self)
      obtain ⟨begins, others⟩ := List.forall_mem_cons.mp (form ▸ d.wordy)
      have passed : spacingsFrom operandEnd judgedSigns operandStart before
          (ws ++ ([c] ++ (o.text ++ ([e] ++ (es ++ linksText links))))) = _ :=
        word_passed first last
      have found : spacingsFrom operandEnd judgedSigns operandStart (ws.reverse ++ before)
          ([c] ++ (o.text ++ ([e] ++ (es ++ linksText links)))) = _ :=
        spacings_found judged_signs_take o (operand_end_taken last) begins
          fun _ => operand_start_taken begins
      have count : judgedCount (ws ++ [c]).length (lengths ((o, d) :: links)) =
          judgedCount es.length (lengths links) + 1 := by
        rw [List.length_append, List.length_singleton, lengths, List.map_cons, judgedCount, form]
        rfl
      rw [count, form, List.append_assoc]
      exact passed.trans (found.trans (congrArg _ (ih others)))

theorem left_operand_taken {before cs rest : List Char} (nonempty : cs ≠ [])
    (wordy : cs ∈ allOf Text.isWord) (apart : before.head?.any Text.isWord = false)
    (ends : rest.head?.any Text.isWord = false) :
    leftOperand ⟨before, [], cs ++ rest⟩ = [⟨before, cs.reverse, rest⟩] := by
  have here : boundary ⟨before, [], cs ++ rest⟩ = [⟨before, [], cs ++ rest⟩] := by
    rw [boundary_at, if_pos]
    rw [List.nil_append, apart, operand_begins ⟨cs, nonempty, wordy⟩ rest]
    rfl
  rw [leftOperand, sequence_cons, here, List.flatMap_singleton]
  exact (word_taken nonempty wordy ends).trans (by rw [List.append_nil])

theorem word_none (before taken : List Char) {c : Char} (ahead : List Char)
    (other : Text.isWord c = false) : word ⟨before, taken, c :: ahead⟩ = [] := by
  have here : satisfying Text.isWord ⟨before, taken, c :: ahead⟩ = [] :=
    if_neg (Bool.eq_false_iff.mp other)
  rw [word, span1, sequence_cons, here, List.flatMap_nil]

theorem left_operand_none (before : List Char) (c : Char) (ahead : List Char)
    (other : Text.isWord c = false) (_ : isMark c = false) :
    leftOperand ⟨before, [], c :: ahead⟩ = [] := by
  rw [leftOperand, sequence_cons, List.flatMap_eq_nil_iff]
  intro place led
  rw [boundary_stays led]
  exact word_none before [] ahead other

theorem left_operand_within {before : List Char} {c : Char} (ahead : List Char)
    (within : before.head?.any Text.isWord = true) (wordy : Text.isWord c = true) :
    leftOperand ⟨before, [], c :: ahead⟩ = [] := by
  have none : boundary ⟨before, [], c :: ahead⟩ = [] := by
    rw [boundary_at, if_neg]
    rw [List.nil_append, within, List.head?_cons, Option.any_some, wordy]
    exact Bool.false_ne_true
  rw [leftOperand, sequence_cons, none, List.flatMap_nil]

theorem last_operand (d : Operand) {before : List Char}
    (apart : before.head?.any Text.isWord = false) :
    spacingsFrom leftOperand binarySigns word before d.text = [] := by
  have passed : spacingsFrom leftOperand binarySigns word before (d.text ++ []) = _ :=
    spacings_passed fun ws c later split => ?_
  · rw [List.append_nil] at passed
    rw [passed]
    rfl
  rw [operation_at, List.append_nil]
  rcases List.eq_nil_or_concat' ws with rfl | ⟨ws, e, rfl⟩
  · have ends : ([] : List Char).head?.any Text.isWord = false := rfl
    have taken := left_operand_taken d.nonempty d.wordy apart ends
    rw [List.append_nil] at taken
    rw [List.nil_append] at split
    rw [List.reverse_nil, List.nil_append, ← split, taken, List.flatMap_singleton, blanks_stay rfl,
      List.flatMap_singleton, binary_signs_take.notWord _ _ _ rfl, List.flatMap_nil]
  · have wordy (x : Char) (member : x ∈ ws ++ [e] ++ c :: later) : Text.isWord x = true :=
      d.wordy x (split ▸ member)
    have within : ((ws ++ [e]).reverse ++ before).head?.any Text.isWord = true := by
      rw [List.reverse_append]
      exact wordy e (by simp)
    rw [left_operand_within later within (wordy c (by simp)), List.flatMap_nil]

theorem first_operation (d : Operand) (link : Operator × Operand) (links : Links)
    {before : List Char} (apart : before.head?.any Text.isWord = false) :
    spacingsFrom leftOperand binarySigns word before (d.text ++ linksText (link :: links)) =
      ⟨[], []⟩ :: spacingsFrom leftOperand binarySigns word
        ((d.text ++ (link.1.text ++ link.2.text)).reverse ++ before) (linksText links) := by
  obtain ⟨o, e⟩ := link
  have leftTaken := left_operand_taken d.nonempty d.wordy apart
    (operator_begins o (e.text ++ linksText links)).1
  have found := spacings_found binary_signs_take o leftTaken (operand_begins e _) fun _ =>
    word_taken e.nonempty e.wordy (links_begin links)
  rw [links_text_cons]
  exact found

/-- Every operation takes two operands, so the operator between it and the next has no left
operand any more. -/
theorem binary_spacings (d : Operand) (links : Links) {before : List Char}
    (apart : before.head?.any Text.isWord = false) :
    spacingsFrom leftOperand binarySigns word before (d.text ++ linksText links) =
      List.replicate ((links.length + 1) / 2) ⟨[], []⟩ := by
  induction links using List.twoStepInduction generalizing d before with
  | nil =>
    rw [linksText, List.flatMap_nil, List.append_nil, last_operand d apart]
    rfl
  | singleton link =>
    have none (before : List Char) :
        spacingsFrom leftOperand binarySigns word before (linksText []) = [] := rfl
    have count : ([link].length + 1) / 2 = 1 := by simp only [List.length_singleton]
    rw [first_operation d link [] apart, none, count]
    rfl
  | cons_cons link next links ih _ =>
    obtain ⟨o, e⟩ := next
    have count : (link :: (o, e) :: links).length + 1 = links.length + 1 + 2 := rfl
    rw [first_operation d link _ apart, links_text_cons, operator_passed left_operand_none,
      ih e (operator_ends o _), count, Nat.add_div_right _ Nat.two_pos]
    rfl

/- The other irregularities, all of them at a comma, a semicolon, a parenthesis or a bracket. -/

def marked : Language Char := {cs | ∃ c ∈ cs, isMark c = true}

theorem satisfying_marked {q : Char → Bool} (marks : ∀ c, q c = true → isMark c = true) :
    Spells (satisfying q) marked := by
  refine (spells_satisfying q).mono ?_
  rintro cs ⟨c, holds, rfl⟩
  exact ⟨c, List.mem_singleton_self c, marks c holds⟩

theorem char_marked {c : Char} (mark : isMark c = true) : Spells (char c) marked :=
  satisfying_marked fun d same => by rwa [beq_iff_eq.mp same]

theorem marked_first {p : Pattern} {ps : List Pattern} {L : Language Char} (first : Spells p marked)
    (rest : Spells (sequence ps) L) : Spells (sequence (p :: ps)) marked := by
  refine (first.cons rest).mono ?_
  rintro cs ⟨xs, ⟨c, member, mark⟩, ys, inside, rfl⟩
  exact ⟨c, List.mem_append_left ys member, mark⟩

theorem marked_later {p : Pattern} {ps : List Pattern} {L : Language Char} (first : Spells p L)
    (rest : Spells (sequence ps) marked) : Spells (sequence (p :: ps)) marked := by
  refine (first.cons rest).mono ?_
  rintro cs ⟨xs, inside, ys, ⟨c, member, mark⟩, rfl⟩
  exact ⟨c, List.mem_append_right xs member, mark⟩

theorem spacing_patterns_marked : ∀ p ∈ spacingPatterns, Spells p marked := by
  have visible := spells_satisfying isVisible
  have spaces : Spells spaces1 (allOf isSpaceOrTab) := spells_nonempty_run (spells_span _)
  have punctuation : Spells (satisfying fun c => c = ',' || c = ';') marked := by
    refine satisfying_marked fun c holds => ?_
    rcases (by simpa using holds : c = ',' ∨ c = ';') with rfl | rfl <;> rfl
  have comma : Spells (char ',') marked := char_marked rfl
  have semicolon : Spells (char ';') marked := char_marked rfl
  have opening : Spells (char '(') marked := char_marked rfl
  have closing : Spells (char ')') marked := char_marked rfl
  simp only [spacingPatterns, List.forall_mem_cons, List.not_mem_nil, false_implies, forall_const,
    and_true]
  refine ⟨?_, ?_, ?_, ?_, ?_⟩
  · exact marked_first comma visible.last
  · exact marked_later visible (marked_later spaces punctuation.last)
  · exact marked_first semicolon (spells_satisfying _).last
  · refine spells_one_of (List.forall_mem_cons.mpr ⟨?_, List.forall_mem_singleton.mpr ?_⟩)
    · exact marked_first opening (spaces.cons visible.last)
    · exact marked_later visible (marked_later spaces closing.last)
  · exact marked_later spells_boundary (marked_later (spells_literals _) opening.last)

theorem marked_not_found {p : Pattern} (spells : Spells p marked) {line : List Char}
    (plain : ∀ c ∈ line, isMark c = false) : countMatches p line = 0 := by
  rw [countMatches, List.length_eq_zero_iff, List.eq_nil_iff_forall_not_mem]
  intro found member
  have fits := all_matches_fit spells found member
  obtain ⟨c, inside, mark⟩ := fits.text_mem spells
  have within : c ∈ line := by
    rw [fits.text_eq]
    exact List.mem_append_right _ (List.mem_append_left _ inside)
  rw [plain c within] at mark
  cases mark

theorem chain_chars (first : Operand) (links : Links) :
    ∀ c ∈ chainText first links, isMark c = false := by
  have operand (d : Operand) (c : Char) (member : c ∈ d.text) : isMark c = false := by
    refine Bool.eq_false_iff.mpr fun mark => ?_
    have word : Text.isWord c = true := d.wordy c member
    rw [mark_not_word mark] at word
    cases word
  intro c member
  rcases List.mem_append.mp member with inside | inside
  · exact operand first c inside
  · obtain ⟨⟨o, d⟩, -, inside⟩ := List.mem_flatMap.mp inside
    rcases List.mem_append.mp inside with inside | inside
    · exact (operator_chars o c inside).2.2
    · exact operand d c inside

theorem chain_begins (first : Operand) (links : Links) :
    ∃ c rest, chainText first links = c :: rest ∧ Text.isWord c = true :=
  word_ahead (operand_begins first _)

theorem chain_trimmed (first : Operand) (links : Links) :
    Text.trimStart (chainText first links) = chainText first links := by
  obtain ⟨c, rest, form, word⟩ := chain_begins first links
  rw [form, Text.trimStart, List.dropWhile_cons_of_neg]
  exact Bool.eq_false_iff.mp (word_no_blank word)

theorem chain_no_preprocessor (first : Operand) (links : Links) :
    Lexicon.isPreprocessor (chainText first links) = false := by
  obtain ⟨c, rest, form, word⟩ := chain_begins first links
  rw [Lexicon.isPreprocessor, chain_trimmed, form, List.head?_cons, decide_eq_false_iff_not,
    Option.some_inj]
  rintro rfl
  exact absurd word (by decide +kernel)

theorem chain_other_issues (first : Operand) (links : Links) :
    sumOf (spacingPatterns.map (countMatches · (chainText first links))) = 0 := by
  have none (p : Pattern) (member : p ∈ spacingPatterns) :
      countMatches p (chainText first links) = 0 :=
    marked_not_found (spacing_patterns_marked p member) (chain_chars first links)
  rw [List.map_congr_left none, List.map_const']
  rfl

def judgedIn (first : Operand) (links : Links) : Nat :=
  judgedCount first.text.length (lengths links)

theorem chain_operator_issues (first : Operand) (links : Links) :
    operatorIssues (chainText first links) = 2 * judgedIn first links := by
  have spacings : spacingsFrom operandEnd judgedSigns operandStart []
      (first.text ++ linksText links) = _ := judged_spacings links first.wordy
  have sum (n : Nat) : sumOf ((List.replicate n (⟨[], []⟩ : Spacing)).map fun s =>
      sideIssues s.before + sideIssues s.after) = 2 * n := by
    rw [List.map_replicate, sum_of_eq, List.sum_replicate_nat]
    exact Nat.mul_comm n 2
  have read (line : List Char) : operatorIssues line =
      sumOf ((spacingsFrom operandEnd judgedSigns operandStart [] line).map fun s =>
        sideIssues s.before + sideIssues s.after) := rfl
  rw [read, chainText, spacings]
  exact sum _

theorem chain_spacings (first : Operand) (links : Links) :
    operationSpacings (chainText first links) =
      List.replicate ((links.length + 1) / 2) ⟨[], []⟩ := by
  have spacings : spacingsFrom leftOperand binarySigns word [] (chainText first links) = _ :=
    binary_spacings first links rfl
  exact spacings

/- How many operators are judged. -/

theorem judged_le (ns : List Nat) (m : Nat) : judgedCount m ns ≤ ns.length := by
  fun_induction judgedCount m ns with
  | case1 => exact Nat.le_refl 0
  | case2 n ns ih => exact ih.trans (Nat.le_succ _)
  | case3 m n ns ih => exact Nat.succ_le_succ ih

theorem half_judged {ns : List Nat} {m : Nat} (nonempty : ∀ n ∈ ns, 0 < n) :
    (ns.length + min m 1) / 2 ≤ judgedCount m ns := by
  fun_induction judgedCount m ns with
  | case1 m =>
    rw [List.length_nil]
    omega
  | case2 n ns ih =>
    obtain ⟨here, others⟩ := List.forall_mem_cons.mp nonempty
    have := ih others
    rw [List.length_cons]
    omega
  | case3 m n ns ih =>
    have := ih (List.forall_mem_cons.mp nonempty).2
    rw [List.length_cons]
    omega

/-- All operators are judged where every operand between two of them is left over in part. -/
theorem all_judged_iff {ns : List Nat} {m : Nat} (nonempty : ∀ n ∈ ns, 0 < n) (left : 0 < m) :
    judgedCount m ns = ns.length ↔ ∀ n ∈ ns.dropLast, 1 < n := by
  induction ns generalizing m with
  | nil => exact ⟨fun _ => List.forall_mem_nil _, fun _ => rfl⟩
  | cons n ns ih =>
    obtain ⟨here, others⟩ := List.forall_mem_cons.mp nonempty
    obtain ⟨m, rfl⟩ := Nat.exists_eq_add_one_of_ne_zero (Nat.ne_of_gt left)
    rw [judgedCount, List.length_cons, Nat.add_right_cancel_iff]
    cases ns with
    | nil => exact ⟨fun _ => List.forall_mem_nil _, fun _ => rfl⟩
    | cons k ns =>
      rw [List.dropLast_cons_cons, List.forall_mem_cons]
      rcases Nat.lt_or_ge 1 n with long | short
      · rw [ih others (by omega), and_iff_right long]
      · obtain rfl : n = 1 := by omega
        have fewer := judged_le ns k
        refine ⟨fun all => ?_, fun long => absurd long.1 (Nat.lt_irrefl 1)⟩
        rw [Nat.sub_self, judgedCount, List.length_cons] at all
        omega

theorem lengths_positive (links : Links) : ∀ n ∈ lengths links, 0 < n :=
  List.forall_mem_map.mpr fun link _ => List.length_pos_iff.mpr link.2.nonempty

/-- In a chain without blanks an operator is an issue on either side if the search finds it. In the
indicators of a human style that is every operator if, and only if, each operand between two
operators has two characters or more, and never less than half of them. The structure of a file
counts every other operator, however long the operands are. -/
theorem shared_operands_hide_operators (first : Operand) (links : Links) :
    let line := chainText first links
    let judged := judgedIn first links
    Lexicon.isPreprocessor line = false ∧
      (operatorIssues line = 2 * judged ∧ lineSpacingIssues line = 2 * judged) ∧
      ((links.length + 1) / 2 ≤ judged ∧ judged ≤ links.length) ∧
      (judged = links.length ↔ ∀ n ∈ (lengths links).dropLast, 1 < n) ∧
      (operationSpacings line).length = (links.length + 1) / 2 ∧
      (operationSpacings line).countP isSpaced = 0 := by
  intro line judged
  have issues : operatorIssues line = 2 * judged := chain_operator_issues first links
  have present : 0 < first.text.length := List.length_pos_iff.mpr first.nonempty
  have size : (lengths links).length = links.length := List.length_map ..
  have half : (_ + min first.text.length 1) / 2 ≤ judged := half_judged (lengths_positive links)
  have most := judged_le (lengths links) first.text.length
  have all := all_judged_iff (lengths_positive links) present
  rw [size] at half most all
  rw [Nat.min_eq_right present] at half
  refine ⟨chain_no_preprocessor first links, ⟨issues, ?_⟩, ⟨half, most⟩, all, ?_, ?_⟩
  · rw [lineSpacingIssues, chain_trimmed, chain_other_issues]
    exact issues
  · rw [chain_spacings, List.length_replicate]
  · rw [chain_spacings, List.countP_replicate]
    rfl

def Operand.ofChar (c : Char) (word : Text.isWord c = true) : Operand where
  text := [c]
  nonempty := List.cons_ne_nil c []
  wordy := List.forall_mem_singleton.mpr word

/-- In `a+b+c` the first operator takes `b`, and nothing finds the second. -/
theorem second_operator_unseen :
    let first := Operand.ofChar 'a' (by rfl)
    let links : Links := [(.plus, .ofChar 'b' (by rfl)), (.plus, .ofChar 'c' (by rfl))]
    chainText first links = "a+b+c".toList ∧ links.length = 2 ∧
      Lexicon.isPreprocessor "a+b+c".toList = false ∧
      (lineSpacingIssues "a+b+c".toList = 2 ∧ 2 ≠ 2 * links.length) ∧
      ((operationSpacings "a+b+c".toList).length = 1 ∧ 1 ≠ links.length) ∧
      (styleIssues (Source.prepare "a+b+c" "a.c")).spacing.total = 2 := by
  decide +kernel

end Authorship.Analysis
