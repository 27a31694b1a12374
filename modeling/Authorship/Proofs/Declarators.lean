import Authorship.Lexicon.Declaration
import Mathlib.Data.List.TakeWhile
import Mathlib.Tactic.Tauto

/-
One declarator: a name, the groups that give its dimensions, and an initializer. Groups and
initializers are passed over by one walk along the brackets, and differ only in where it stops.
-/
namespace Authorship.Lexicon

/- The walk along the brackets. -/

inductive Step where
  | before
  | after
  | on (depth : Nat)

def groupStep (depth : Nat) (c : Char) : Step :=
  if isOpener c then .on (depth + 1)
  else if isCloser c then if depth ≤ 1 then .after else .on (depth - 1)
  else .on depth

def initializerStep (depth : Nat) (c : Char) : Step :=
  if isOpener c then .on (depth + 1)
  else if isCloser c then if depth = 0 then .before else .on (depth - 1)
  else if depth = 0 && (c = ',' || c = ';') then .before
  else .on depth

def walk (step : Nat → Char → Step) (bytes depth : Nat) : List Char → List Char
  | [] => []
  | c :: cs =>
    if bytes < c.utf8Size then c :: cs
    else
      match step depth c with
      | .before => c :: cs
      | .after => cs
      | .on depth => walk step (bytes - c.utf8Size) depth cs

theorem skip_group_eq (bytes depth : Nat) (cs : List Char) :
    skipGroup bytes depth cs = walk groupStep bytes depth cs := by
  induction cs generalizing bytes depth with
  | nil => rfl
  | cons c cs ih =>
    rw [skipGroup, walk, groupStep, ih, ih, ih]
    split
    · rfl
    · split
      · rfl
      · split
        · split <;> rfl
        · rfl

theorem skip_initializer_eq (bytes depth : Nat) (cs : List Char) :
    skipInitializer bytes depth cs = walk initializerStep bytes depth cs := by
  induction cs generalizing bytes depth with
  | nil => rfl
  | cons c cs ih =>
    rw [skipInitializer, walk, initializerStep, ih, ih, ih]
    split
    · rfl
    · split
      · rfl
      · split
        · split <;> rfl
        · split <;> rfl

theorem walk_length (step : Nat → Char → Step) (bytes depth : Nat) (cs : List Char) :
    (walk step bytes depth cs).length ≤ cs.length := by
  fun_induction walk step bytes depth cs with
  | case1 => exact Nat.le_refl _
  | case2 => exact Nat.le_refl _
  | case3 => exact Nat.le_refl _
  | case4 => exact Nat.le_succ _
  | case5 bytes depth c cs _ _ _ ih => exact Nat.le_succ_of_le ih

theorem skip_group_shorter (cs : List Char) :
    (skipGroup declaratorSpan 0 ('[' :: cs)).length ≤ cs.length := by
  rw [skip_group_eq]
  exact walk_length groupStep (declaratorSpan - 1) 1 cs

structure IsIdentifier (name : List Char) : Prop where
  begins : name.head?.any Text.isNameStart = true
  continues : ∀ c ∈ name, Text.isAsciiWord c = true

theorem ascii_word_is_ascii {c : Char} (word : Text.isAsciiWord c = true) : c.toNat < 128 := by
  rcases Bool.or_eq_true_iff.mp word with alphanumeric | underscore
  · rcases Bool.or_eq_true_iff.mp alphanumeric with letter | digit
    · rcases Bool.or_eq_true_iff.mp letter with capital | small
      · exact Nat.lt_of_le_of_lt (of_decide_eq_true capital).2 (by decide)
      · exact Nat.lt_of_le_of_lt (of_decide_eq_true (Bool.and_eq_true_iff.mp small).2) (by decide)
    · exact Nat.lt_of_le_of_lt (Char.isDigit_iff_toNat.mp digit).2 (by decide)
  · obtain rfl := of_decide_eq_true underscore
    decide

theorem name_start_is_word {c : Char} (start : Text.isNameStart c = true) :
    Text.isAsciiWord c = true := by
  simp only [Text.isNameStart, Text.isAsciiWord, Char.isAlphanum, Bool.or_eq_true] at *
  tauto

theorem read_name_eq_some {cs name after : List Char} (read : readName cs = some (name, after)) :
    IsIdentifier name ∧ cs = name ++ after := by
  rw [readName] at read
  split at read
  · rename_i starts
    obtain ⟨rfl, rfl⟩ := Prod.mk.inj (Option.some.inj read)
    refine ⟨⟨?_, ?_⟩, List.takeWhile_append_dropWhile.symm⟩
    · cases cs with
      | nil => exact starts
      | cons c cs => rwa [List.takeWhile_cons_of_pos (name_start_is_word starts)]
    · exact fun c member => List.mem_takeWhile_imp member
  · cases read

theorem read_name_shorter {cs name after : List Char} (read : readName cs = some (name, after)) :
    after.length < cs.length := by
  obtain ⟨⟨begins, _⟩, rfl⟩ := read_name_eq_some read
  cases name with
  | nil => cases begins
  | cons c name =>
    rw [List.length_append, List.length_cons]
    omega

def afterDimensions (cs : List Char) : List Char := skipDimensions cs.length cs

def afterInitializer : List Char → List Char
  | '=' :: cs => skipInitializer declaratorSpan 0 cs
  | cs => cs

theorem skip_dimensions_length (turns : Nat) (cs : List Char) :
    (skipDimensions turns cs).length ≤ cs.length := by
  fun_induction skipDimensions turns cs with
  | case1 => exact Nat.le_refl _
  | case2 turns cs ih =>
    have group := skip_group_shorter cs
    have blanks := (List.dropWhile_sublist (l := skipGroup declaratorSpan 0 ('[' :: cs))
      Text.isAsciiBlank).length_le
    rw [List.length_cons]
    omega
  | case3 => exact Nat.le_refl _

theorem after_initializer_length (cs : List Char) :
    (afterInitializer cs).length ≤ cs.length := by
  unfold afterInitializer
  split
  · rw [skip_initializer_eq]
    exact Nat.le_succ_of_le (walk_length initializerStep declaratorSpan 0 _)
  · exact Nat.le_refl _

theorem declarator_names_step (turns : Nat) (isFirst : Bool) (cs : List Char) :
    declaratorNames (turns + 1) isFirst cs =
      match readName (cs.dropWhile isDeclaratorSign) with
      | none => []
      | some (name, afterName) =>
        let rest := afterDimensions (afterName.dropWhile Text.isAsciiBlank)
        if isReserved name then []
        else if isFirst && rest.head? = some '(' then []
        else name :: declaratorNames.continued turns (afterInitializer rest) := by
  rw [declaratorNames]
  cases readName (cs.dropWhile isDeclaratorSign) with
  | none => rfl
  | some found =>
    obtain ⟨name, afterName⟩ := found
    dsimp only
    rw [← afterDimensions]
    generalize afterDimensions (afterName.dropWhile Text.isAsciiBlank) = rest
    by_cases reserved : isReserved name = true
    · rw [if_pos reserved, if_pos reserved]
    · rw [if_neg reserved, if_neg reserved]
      split
      · cases isFirst <;> simp [afterInitializer]
      · simp [afterInitializer]
      · rename_i no_parenthesis no_equals
        have first : rest.head? ≠ some '(' := fun same => by
          obtain ⟨cs, split⟩ := List.head?_eq_some_iff.mp same
          exact no_parenthesis cs split
        have plain : afterInitializer rest = rest := by
          unfold afterInitializer
          split
          · exact absurd rfl (no_equals _)
          · rfl
        rw [plain, decide_eq_false first, Bool.and_false]
        rfl

theorem continued_after_comma (turns : Nat) (cs : List Char) :
    declaratorNames.continued turns (',' :: cs) = declaratorNames turns false cs := by
  rw [declaratorNames.continued]

theorem not_continued (turns : Nat) {cs : List Char} (other : cs.head? ≠ some ',') :
    declaratorNames.continued turns cs = [] := by
  unfold declaratorNames.continued
  split
  · exact absurd rfl other
  · rfl

/- What stands before a type. -/

theorem follows_for_eq (behind : List Char) :
    followsForParenthesis behind =
      ((behind.dropWhile Text.isBlank).head? = some '(' &&
        ['r', 'o', 'f'].isPrefixOf ((behind.dropWhile Text.isBlank).tail.dropWhile Text.isBlank) &&
        !(((behind.dropWhile Text.isBlank).tail.dropWhile Text.isBlank).drop 3).head?.any
          fun c => Text.isAlphanumeric c || c = '_') := by
  rw [followsForParenthesis]
  split
  · rename_i rest parenthesis
    rw [parenthesis, List.head?_cons, List.tail_cons]
    split
    · rename_i before word
      simp [word]
    · rename_i other
      have no_word : ['r', 'o', 'f'].isPrefixOf (rest.dropWhile Text.isBlank) = false := by
        rw [Bool.eq_false_iff]
        intro part
        obtain ⟨before, word⟩ := List.isPrefixOf_iff_prefix.mp part
        exact other before word.symm
      simp [no_word]
  · rename_i other
    have no_parenthesis : (behind.dropWhile Text.isBlank).head? ≠ some '(' := by
      intro first
      obtain ⟨rest, split⟩ := List.head?_eq_some_iff.mp first
      exact other rest split
    simp [no_parenthesis]

end Authorship.Lexicon
