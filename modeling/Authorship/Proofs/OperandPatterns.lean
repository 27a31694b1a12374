import Authorship.Analysis.Style
import Authorship.Proofs.BodyTokens
import Authorship.Proofs.FunctionNames
import Authorship.Proofs.PatternPlaces

/-
Operands and operators that touch each other, and the search for one pattern on the left of an
operator and another on its right: what it finds, and what it passes over.
-/
namespace Authorship.Analysis

open Pattern

inductive Operator where
  | plus | minus | times | over | less | greater
  | equal | unequal | atMost | atLeast | both | either
deriving DecidableEq, Repr

def Operator.text : Operator → List Char
  | .plus => ['+']
  | .minus => ['-']
  | .times => ['*']
  | .over => ['/']
  | .less => ['<']
  | .greater => ['>']
  | .equal => ['=', '=']
  | .unequal => ['!', '=']
  | .atMost => ['<', '=']
  | .atLeast => ['>', '=']
  | .both => ['&', '&']
  | .either => ['|', '|']

structure Operand where
  text : List Char
  nonempty : text ≠ []
  wordy : text ∈ allOf Text.isWord

abbrev Links := List (Operator × Operand)

def linksText (links : Links) : List Char := links.flatMap fun (o, d) => o.text ++ d.text

def chainText (first : Operand) (links : Links) : List Char := first.text ++ linksText links

theorem links_text_cons (o : Operator) (d : Operand) (links : Links) :
    linksText ((o, d) :: links) = o.text ++ (d.text ++ linksText links) := List.append_assoc ..

/- What may follow an operand, and what may not. -/

def isMark (c : Char) : Bool := [',', ';', '(', ')', ']'].contains c

theorem operator_chars (o : Operator) :
    ∀ c ∈ o.text, Text.isWord c = false ∧ Text.isBlank c = false ∧ isMark c = false := by
  have all : o.text.all (fun c => !Text.isWord c && !Text.isBlank c && !isMark c) = true := by
    cases o <;> rfl
  simpa [List.all_eq_true, and_assoc] using all

theorem operator_nonempty (o : Operator) : o.text ≠ [] := by
  cases o <;> exact List.cons_ne_nil _ _

theorem mark_not_word {c : Char} (mark : isMark c = true) : Text.isWord c = false := by
  simp only [isMark, List.contains_iff_mem, List.mem_cons, List.not_mem_nil, or_false] at mark
  rcases mark with rfl | rfl | rfl | rfl | rfl <;> rfl

theorem operand_begins (d : Operand) (rest : List Char) :
    (d.text ++ rest).head?.any Text.isWord = true := by
  obtain ⟨c, cs, form⟩ := List.exists_cons_of_ne_nil d.nonempty
  have word := d.wordy c (form ▸ List.mem_cons_self)
  rw [form]
  simpa using word

theorem operator_begins (o : Operator) (rest : List Char) :
    (o.text ++ rest).head?.any Text.isWord = false ∧
      (o.text ++ rest).head?.any Text.isBlank = false := by
  cases o <;> exact ⟨by rfl, by rfl⟩

theorem operator_ends (o : Operator) (before : List Char) :
    (o.text.reverse ++ before).head?.any Text.isWord = false := by
  cases o <;> rfl

theorem links_begin (links : Links) : (linksText links).head?.any Text.isWord = false := by
  cases links with
  | nil => rfl
  | cons link links =>
    rw [links_text_cons]
    exact (operator_begins link.1 _).1

theorem blanks_stay {before taken ahead : List Char}
    (visible : ahead.head?.any Text.isBlank = false) :
    blanks ⟨before, taken, ahead⟩ = [⟨before, taken, ahead⟩] := by
  have none : ([] : List Char) ∈ allOf Text.isBlank := List.forall_mem_nil _
  exact congrArg (fun place => [place]) (span_from_at before taken none visible)

theorem word_taken {before taken cs rest : List Char} (nonempty : cs ≠ [])
    (wordy : cs ∈ allOf Text.isWord) (ends : rest.head?.any Text.isWord = false) :
    word ⟨before, taken, cs ++ rest⟩ = [⟨before, cs.reverse ++ taken, rest⟩] := by
  obtain ⟨c, cs, rfl⟩ := List.exists_cons_of_ne_nil nonempty
  obtain ⟨first, others⟩ := List.forall_mem_cons.mp wordy
  have here : satisfying Text.isWord ⟨before, taken, c :: cs ++ rest⟩ =
      [⟨before, c :: taken, cs ++ rest⟩] := if_pos first
  have later := span_from_at before (c :: taken) others ends
  rw [word, span1, sequence_cons, here, List.flatMap_singleton, List.reverse_cons,
    List.append_assoc]
  exact congrArg (fun place => [place]) later

/-- A pattern that takes an operator whole before it takes less of it, and takes nothing else. -/
structure TakesOperators (signs : Pattern) : Prop where
  taken : ∀ (o : Operator) before taken rest, rest.head?.any Text.isWord = true →
    ∃ others, signs ⟨before, taken, o.text ++ rest⟩ =
      ⟨before, o.text.reverse ++ taken, rest⟩ :: others
  notWord : ∀ before taken rest, rest.head?.all Text.isWord = true →
    signs ⟨before, taken, rest⟩ = []

theorem word_ahead {rest : List Char} (word : rest.head?.any Text.isWord = true) :
    ∃ c others, rest = c :: others ∧ Text.isWord c = true := by
  cases rest with
  | nil => cases word
  | cons c others => exact ⟨c, others, rfl, word⟩

theorem word_no_sign {c d : Char} (word : Text.isWord c = true) (sign : Text.isWord d = false) :
    d ≠ c := by
  rintro rfl
  rw [sign] at word
  cases word

def signChars : List Char := ['+', '-', '*', '/', '%', '=', '<', '>', '&', '|', '!']

theorem signs_not_word : ∀ d ∈ signChars, Text.isWord d = false := by
  have all : signChars.all (!Text.isWord ·) = true := rfl
  simpa [List.all_eq_true] using all

def signsOf (texts : List (List Char)) (chars : List Char) : Pattern :=
  oneOf [literals texts, satisfying chars.contains]

section

variable {texts : List (List Char)} {chars : List Char}

theorem literals_no_word (spelled : ∀ cs ∈ texts, cs.head?.any signChars.contains = true)
    {rest : List Char} (word : rest.head?.all Text.isWord = true) (before taken : List Char) :
    literals texts ⟨before, taken, rest⟩ = [] := by
  induction texts with
  | nil => rfl
  | cons cs texts ih =>
    obtain ⟨begins, others⟩ := List.forall_mem_cons.mp spelled
    have fails : expect before taken cs rest = none := by
      cases cs with
      | nil => cases begins
      | cons d ds =>
        have sign : d ∈ signChars := List.contains_iff_mem.mp begins
        cases rest with
        | nil => rfl
        | cons c rest => exact if_neg (word_no_sign word (signs_not_word d sign))
    rw [literals, fails]
    exact ih others

theorem satisfying_no_word (among : ∀ d ∈ chars, d ∈ signChars) {rest : List Char}
    (word : rest.head?.all Text.isWord = true) (before taken : List Char) :
    satisfying chars.contains ⟨before, taken, rest⟩ = [] := by
  cases rest with
  | nil => rfl
  | cons c rest =>
    apply if_neg
    rw [List.contains_iff_mem]
    intro member
    exact word_no_sign word (signs_not_word c (among c member)) rfl

theorem signs_no_word (spelled : texts.all (·.head?.any signChars.contains) = true)
    (among : chars.all signChars.contains = true) {rest : List Char}
    (word : rest.head?.all Text.isWord = true) (before taken : List Char) :
    signsOf texts chars ⟨before, taken, rest⟩ = [] := by
  have parts (place : Cursor) :
      signsOf texts chars place = literals texts place ++ satisfying chars.contains place := rfl
  have sign (d : Char) (member : d ∈ chars) : d ∈ signChars :=
    List.contains_iff_mem.mp (List.all_eq_true.mp among d member)
  rw [parts, literals_no_word (List.all_eq_true.mp spelled) word, satisfying_no_word sign word,
    List.append_nil]

end

theorem judged_signs_take : TakesOperators judgedSigns where
  taken o before taken rest word := by
    obtain ⟨c, rest, rfl, wordy⟩ := word_ahead word
    have equal := word_no_sign wordy (signs_not_word '=' (by simp [signChars]))
    cases o <;>
      simp [judgedSigns, oneOf, literals, spellings, expect, Pattern.satisfying, Operator.text,
        equal]
  notWord before taken rest word := signs_no_word rfl rfl word before taken

theorem binary_signs_take : TakesOperators binarySigns where
  taken o before taken rest word := by
    obtain ⟨c, rest, rfl, wordy⟩ := word_ahead word
    have equal := word_no_sign wordy (signs_not_word '=' (by simp [signChars]))
    cases o <;>
      simp [binarySigns, oneOf, literals, spellings, expect, Pattern.satisfying, Operator.text,
        equal]
  notWord before taken rest word := signs_no_word rfl rfl word before taken

/- Operations one after the other. -/

def operation (left signs right : Pattern) : Pattern :=
  sequence [left, blanks, signs, blanks, right]

theorem operation_at (left signs right : Pattern) (a : Cursor) : operation left signs right a =
    (left a).flatMap fun b => (blanks b).flatMap fun c => (signs c).flatMap fun d =>
      (blanks d).flatMap right := by
  have rights : sequence [blanks, right] = fun d => (blanks d).flatMap right :=
    funext fun d => sequence_cons blanks [right] d
  have signed : sequence [signs, blanks, right] = fun c => (signs c).flatMap fun d =>
      (blanks d).flatMap right := funext fun c => by rw [sequence_cons, rights]
  have apart : sequence [blanks, signs, blanks, right] = fun b => (blanks b).flatMap fun c =>
      (signs c).flatMap fun d => (blanks d).flatMap right :=
    funext fun b => by rw [sequence_cons, signed]
  rw [operation, sequence_cons, apart]

/-- The blanks around the operators of those operations that the search finds from a place on. -/
def spacingsFrom (left signs right : Pattern) (before ahead : List Char) : List Spacing :=
  (matchesFrom (operation left signs right) before 0 ahead).filterMap fun found =>
    spacingWithin left signs right found.start

section

variable {left signs right : Pattern} {before xs ys rest : List Char}

theorem spacings_found (takes : TakesOperators signs) (o : Operator)
    (leftTaken : left ⟨before, [], xs ++ (o.text ++ (ys ++ rest))⟩ =
      [⟨before, xs.reverse, o.text ++ (ys ++ rest)⟩])
    (word : (ys ++ rest).head?.any Text.isWord = true)
    (rightTaken : ∀ taken, right ⟨before, taken, ys ++ rest⟩ =
      [⟨before, ys.reverse ++ taken, rest⟩]) :
    spacingsFrom left signs right before (xs ++ (o.text ++ (ys ++ rest))) = ⟨[], []⟩ ::
      spacingsFrom left signs right ((xs ++ (o.text ++ ys)).reverse ++ before) rest := by
  obtain ⟨c, later, form, wordy⟩ := word_ahead word
  have stays (taken : List Char) : blanks ⟨before, taken, o.text ++ (ys ++ rest)⟩ =
      [⟨before, taken, o.text ++ (ys ++ rest)⟩] := blanks_stay (operator_begins o _).2
  have stays' (taken : List Char) : blanks ⟨before, taken, ys ++ rest⟩ =
      [⟨before, taken, ys ++ rest⟩] :=
    blanks_stay (by rw [form]; exact word_no_blank wordy)
  obtain ⟨others, signsTaken⟩ := takes.taken o before xs.reverse (ys ++ rest) word
  have whole : (xs ++ (o.text ++ ys)) ++ rest = xs ++ (o.text ++ (ys ++ rest)) := by
    simp only [List.append_assoc]
  have found : matchAt? (operation left signs right) before ((xs ++ (o.text ++ ys)) ++ rest) =
      some ⟨before, xs ++ (o.text ++ ys), rest⟩ := by
    simp [matchAt?, operation_at, whole, leftTaken, stays, signsTaken, stays', rightTaken]
  have spacing : spacingWithin left signs right
      (⟨before, xs ++ (o.text ++ ys), rest⟩ : Match).start = some ⟨[], []⟩ := by
    simp [spacingWithin, Match.start, leftTaken, stays, signsTaken, stays', rightTaken,
      Cursor.textTo]
  have nonempty : xs ++ (o.text ++ ys) ≠ [] := by
    simp [operator_nonempty]
  rw [← whole, spacingsFrom, matches_from_found nonempty found, List.filterMap_cons, spacing]
  rfl

theorem spacings_passed (none : ∀ passed c later, xs = passed ++ c :: later →
    operation left signs right ⟨passed.reverse ++ before, [], c :: (later ++ rest)⟩ = []) :
    spacingsFrom left signs right before (xs ++ rest) =
      spacingsFrom left signs right (xs.reverse ++ before) rest := by
  rw [spacingsFrom, matches_from_none fun passed c later split => ?_]
  · rfl
  · rw [matchAt?, none passed c later split]
    rfl

theorem operator_passed (left_none : ∀ before c ahead, Text.isWord c = false →
    isMark c = false → left ⟨before, [], c :: ahead⟩ = []) (o : Operator) :
    spacingsFrom left signs right before (o.text ++ rest) =
      spacingsFrom left signs right (o.text.reverse ++ before) rest := by
  refine spacings_passed fun passed c later split => ?_
  have member : c ∈ o.text := split ▸ List.mem_append_right _ List.mem_cons_self
  obtain ⟨word, -, mark⟩ := operator_chars o c member
  rw [operation_at, left_none _ c _ word mark]
  rfl

end

end Authorship.Analysis
