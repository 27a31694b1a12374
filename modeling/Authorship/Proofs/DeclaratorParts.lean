import Authorship.Proofs.ByteOffsets
import Authorship.Proofs.DeclaredTypes
import Authorship.Proofs.Declarators

/-
A declarator as it is written: stars, a name, dimensions, an initializer. The walk along the
brackets goes over each part up to where it ends, so that what follows the declarator is left.
-/
namespace Authorship.Lexicon

open Pattern Text

/-- Brackets stand in pairs, and the other characters outside of all pairs have the property. -/
inductive Nested : (Char → Bool) → List Char → Prop where
  | nil {outside : Char → Bool} : Nested outside []
  | plain {outside : Char → Bool} {c : Char} {cs : List Char} (no_opener : isOpener c = false)
      (no_closer : isCloser c = false) (free : outside c = true) (rest : Nested outside cs) :
      Nested outside (c :: cs)
  | group {outside : Char → Bool} {first last : Char} {inside cs : List Char}
      (opens : isOpener first = true) (closes : isCloser last = true)
      (inner : Nested (fun _ => true) inside) (rest : Nested outside cs) :
      Nested outside (first :: (inside ++ last :: cs))

/-- At this depth the walk goes into a group, comes back from it, and goes on over the other
characters that have the property. -/
structure Passes (step : Nat → Char → Step) (outside : Char → Bool) (depth : Nat) : Prop where
  opens : ∀ c, isOpener c = true → step depth c = .on (depth + 1)
  closes : ∀ c, isCloser c = true → step (depth + 1) c = .on depth
  goes : ∀ c, isOpener c = false → isCloser c = false → outside c = true →
    step depth c = .on depth

theorem closer_no_opener {c : Char} (closes : isCloser c = true) : isOpener c = false := by
  simp only [isCloser, Bool.or_eq_true, decide_eq_true_eq] at closes
  rcases closes with (rfl | rfl) | rfl <;> rfl

theorem group_step_passes {depth : Nat} (inside : 0 < depth) :
    Passes groupStep (fun _ => true) depth where
  opens c opens := by rw [groupStep, if_pos opens]
  closes c closes := by
    rw [groupStep, if_neg (Bool.eq_false_iff.mp (closer_no_opener closes)), if_pos closes,
      if_neg (by omega), Nat.add_sub_cancel]
  goes c no_opener no_closer _ := by
    rw [groupStep, if_neg (Bool.eq_false_iff.mp no_opener), if_neg (Bool.eq_false_iff.mp no_closer)]

def endsInitializer (c : Char) : Bool := c = ',' || c = ';'

theorem initializer_step_passes {outside : Char → Bool} {depth : Nat}
    (free : depth = 0 → ∀ c, outside c = true → endsInitializer c = false) :
    Passes initializerStep outside depth where
  opens c opens := by rw [initializerStep, if_pos opens]
  closes c closes := by
    rw [initializerStep, if_neg (Bool.eq_false_iff.mp (closer_no_opener closes)), if_pos closes,
      if_neg (by omega), Nat.add_sub_cancel]
  goes c no_opener no_closer goes := by
    have stays : ¬(depth = 0 && (c = ',' || c = ';')) = true := by
      rw [Bool.and_eq_true, decide_eq_true_eq]
      rintro ⟨outermost, ends⟩
      have other := free outermost c goes
      rw [endsInitializer, ends] at other
      cases other
    rw [initializerStep, if_neg (Bool.eq_false_iff.mp no_opener),
      if_neg (Bool.eq_false_iff.mp no_closer), if_neg stays]

theorem walk_on {step : Nat → Char → Step} {bytes depth next : Nat} {c : Char} {cs : List Char}
    (on : step depth c = .on next) (fits : c.utf8Size ≤ bytes) :
    walk step bytes depth (c :: cs) = walk step (bytes - c.utf8Size) next cs := by
  rw [walk, if_neg (Nat.not_lt.mpr fits), on]

theorem walk_nested {step : Nat → Char → Step} {outside : Char → Bool} {cs : List Char}
    (nested : Nested outside cs) {depth : Nat} (here : Passes step outside depth)
    (deeper : ∀ d, depth < d → Passes step (fun _ => true) d) {bytes : Nat}
    (enough : utf8Length cs ≤ bytes) (rest : List Char) :
    walk step bytes depth (cs ++ rest) = walk step (bytes - utf8Length cs) depth rest := by
  induction nested generalizing depth bytes rest with
  | nil => rfl
  | @plain outside c cs no_opener no_closer free nested ih =>
    rw [utf8_length_cons] at enough ⊢
    rw [List.cons_append, walk_on (here.goes c no_opener no_closer free) (by omega),
      ih here deeper (by omega), Nat.sub_sub]
  | @group outside first last inside cs opens closes inner nested ihInner ihRest =>
    rw [utf8_length_cons, utf8_length_append, utf8_length_cons] at enough ⊢
    have inward : Passes step (fun _ => true) (depth + 1) := deeper _ (Nat.lt_succ_self depth)
    rw [List.cons_append, List.append_assoc, List.cons_append,
      walk_on (here.opens first opens) (by omega),
      ihInner inward (fun d below => deeper d (Nat.lt_of_succ_lt below)) (by omega),
      walk_on (here.closes last closes) (by omega), ihRest here deeper (by omega),
      Nat.sub_sub, Nat.sub_sub, Nat.sub_sub]

theorem group_passed {inside : List Char} (nested : Nested (fun _ => true) inside)
    (short : utf8Length inside + 2 ≤ declaratorSpan) (rest : List Char) :
    skipGroup declaratorSpan 0 ('[' :: (inside ++ ']' :: rest)) = rest := by
  have first : Char.utf8Size '[' = 1 := rfl
  have last : Char.utf8Size ']' = 1 := rfl
  have opens : groupStep 0 '[' = .on 1 := rfl
  rw [skip_group_eq, walk_on opens (by omega),
    walk_nested nested (group_step_passes Nat.one_pos)
      (fun d below => group_step_passes (Nat.lt_trans Nat.one_pos below)) (by omega),
    walk, if_neg (by omega)]
  rfl

theorem initializer_passed {init : List Char} {c : Char}
    (nested : Nested (fun c => !endsInitializer c) init)
    (short : utf8Length init ≤ declaratorSpan) (ends : endsInitializer c = true)
    (rest : List Char) : skipInitializer declaratorSpan 0 (init ++ c :: rest) = c :: rest := by
  have stops : initializerStep 0 c = .before := by
    rw [endsInitializer, Bool.or_eq_true, decide_eq_true_eq, decide_eq_true_eq] at ends
    rcases ends with rfl | rfl <;> rfl
  have outermost : Passes initializerStep (fun c => !endsInitializer c) 0 :=
    initializer_step_passes fun _ c free => by simpa using free
  have deeper (d : Nat) (below : 0 < d) : Passes initializerStep (fun _ => true) d :=
    initializer_step_passes fun outermost => absurd outermost (Nat.ne_of_gt below)
  rw [skip_initializer_eq, walk_nested nested outermost deeper short, walk, stops]
  split <;> rfl

structure Dimension where
  inside : List Char
  gap : List Char

def Dimension.text (part : Dimension) : List Char := '[' :: (part.inside ++ ']' :: part.gap)

structure Declarator where
  signs : List Char
  name : List Char
  gap : List Char
  dimensions : List Dimension
  initializer : Option (List Char)

namespace Declarator

def initializerText (d : Declarator) : List Char :=
  match d.initializer with
  | none => []
  | some init => '=' :: init

def rest (d : Declarator) : List Char := d.dimensions.flatMap Dimension.text ++ d.initializerText

def text (d : Declarator) : List Char := d.signs ++ (d.name ++ (d.gap ++ d.rest))

end Declarator

structure Dimension.WellFormed (part : Dimension) : Prop where
  nested : Nested (fun _ => true) part.inside
  short : utf8Length part.inside + 2 ≤ declaratorSpan
  no_type : NoTypeWord part.inside
  blank : ∀ c ∈ part.gap, isAsciiBlank c = true

structure Declarator.WellFormed (d : Declarator) : Prop where
  signs : ∀ c ∈ d.signs, isDeclaratorSign c = true
  identifier : IsIdentifier d.name
  unreserved : isReserved d.name = false
  blank : ∀ c ∈ d.gap, isAsciiBlank c = true
  dimensions : ∀ part ∈ d.dimensions, part.WellFormed
  nested : ∀ init ∈ d.initializer, Nested (fun c => !endsInitializer c) init
  short : ∀ init ∈ d.initializer, utf8Length init ≤ declaratorSpan
  no_type : ∀ init ∈ d.initializer, NoTypeWord init

def endsDimensions (c : Char) : Bool := c = '=' || endsInitializer c

def followsName (c : Char) : Bool := isAsciiBlank c || c = '[' || endsDimensions c

theorem ends_dimensions_apart {c : Char} (ends : endsDimensions c = true) :
    isAsciiBlank c = false ∧ c ≠ '[' ∧ c ≠ '(' := by
  simp only [endsDimensions, endsInitializer, Bool.or_eq_true, decide_eq_true_eq] at ends
  rcases ends with rfl | rfl | rfl <;> decide

theorem follows_name_separates {c : Char} (follows : followsName c = true) :
    isSeparator c = true ∧ isAsciiWord c = false := by
  simp only [followsName, isAsciiBlank, endsDimensions, endsInitializer, Bool.or_eq_true,
    decide_eq_true_eq] at follows
  rcases follows with (((((rfl | rfl) | rfl) | rfl) | rfl) | rfl) | rfl | rfl | rfl <;> decide

theorem sign_separates {c : Char} (sign : isDeclaratorSign c = true) :
    isSeparator c = true ∧ isNameStart c = false := by
  simp only [isDeclaratorSign, isAsciiBlank, Bool.or_eq_true, decide_eq_true_eq] at sign
  rcases sign with (((((rfl | rfl) | rfl) | rfl) | rfl) | rfl) | rfl <;> decide

theorem IsIdentifier.starts {name : List Char} (identifier : IsIdentifier name)
    (rest : List Char) : (name ++ rest).head?.any isNameStart = true := by
  cases name with
  | nil => cases identifier.begins
  | cons a name => exact identifier.begins

theorem name_read {name rest : List Char} (identifier : IsIdentifier name)
    (ends : rest.head?.any isAsciiWord = false) : readName (name ++ rest) = some (name, rest) := by
  rw [readName, if_pos (identifier.starts rest), take_run identifier.continues ends,
    drop_run identifier.continues ends]

theorem dimensions_passed {parts : List Dimension} (wellFormed : ∀ part ∈ parts, part.WellFormed)
    {turns : Nat} (enough : parts.length ≤ turns) {rest : List Char}
    (solid : rest.head?.any isAsciiBlank = false) (no_more : rest.head? ≠ some '[') :
    skipDimensions turns (parts.flatMap Dimension.text ++ rest) = rest := by
  induction parts generalizing turns with
  | nil =>
    rw [List.flatMap_nil, List.nil_append]
    unfold skipDimensions
    split
    · rfl
    · split
      · exact absurd rfl no_more
      · rfl
  | cons part parts ih =>
    obtain ⟨first, later⟩ := List.forall_mem_cons.mp wellFormed
    obtain ⟨turns, rfl⟩ : ∃ more, turns = more + 1 := ⟨turns - 1, by simp at enough; omega⟩
    have apart : (parts.flatMap Dimension.text ++ rest).head?.any isAsciiBlank = false := by
      cases parts with
      | nil => exact solid
      | cons part parts => rfl
    have text : (part :: parts).flatMap Dimension.text ++ rest =
        '[' :: (part.inside ++ ']' :: (part.gap ++ (parts.flatMap Dimension.text ++ rest))) := by
      simp [Dimension.text]
    rw [text, skipDimensions, group_passed first.nested first.short, drop_run first.blank apart,
      ih later (Nat.le_of_succ_le_succ enough)]

theorem dimensions_length (parts : List Dimension) :
    parts.length ≤ (parts.flatMap Dimension.text).length := by
  induction parts with
  | nil => exact Nat.le_refl _
  | cons part parts ih =>
    simp only [List.flatMap_cons, List.length_append, List.length_cons, Dimension.text]
    omega

section

variable {d : Declarator} {c : Char} (ends : endsInitializer c = true) (more : List Char)

include ends

theorem initializer_begins (d : Declarator) :
    ∃ a cs, d.initializerText ++ c :: more = a :: cs ∧ endsDimensions a = true := by
  rw [Declarator.initializerText]
  cases d.initializer with
  | none => exact ⟨c, more, rfl, Bool.or_eq_true_iff.mpr (Or.inr ends)⟩
  | some init => exact ⟨'=', _, rfl, rfl⟩

theorem initializer_read (wellFormed : d.WellFormed) :
    afterInitializer (d.initializerText ++ c :: more) = c :: more := by
  rw [Declarator.initializerText]
  cases init : d.initializer with
  | none =>
    rw [endsInitializer, Bool.or_eq_true, decide_eq_true_eq, decide_eq_true_eq] at ends
    rcases ends with rfl | rfl <;> rfl
  | some cs =>
    exact initializer_passed (wellFormed.nested cs init) (wellFormed.short cs init) ends more

theorem dimensions_read (wellFormed : d.WellFormed) :
    afterDimensions ((d.gap ++ (d.rest ++ c :: more)).dropWhile isAsciiBlank) =
      d.initializerText ++ c :: more := by
  obtain ⟨a, cs, begins, first⟩ := initializer_begins ends more d
  obtain ⟨solid, no_more, -⟩ := ends_dimensions_apart first
  have after : (d.initializerText ++ c :: more).head?.any isAsciiBlank = false := by
    rw [begins]
    exact solid
  have apart : (d.rest ++ c :: more).head?.any isAsciiBlank = false := by
    rw [Declarator.rest, List.append_assoc]
    cases d.dimensions with
    | nil => exact after
    | cons part parts => rfl
  rw [drop_run wellFormed.blank apart, Declarator.rest, List.append_assoc, afterDimensions]
  refine dimensions_passed wellFormed.dimensions ?_ after ?_
  · have := dimensions_length d.dimensions
    rw [List.length_append]
    omega
  · rw [begins, List.head?_cons]
    exact fun same => no_more (Option.some.inj same)

theorem follows_name (wellFormed : d.WellFormed) :
    ∃ a cs, d.gap ++ (d.rest ++ c :: more) = a :: cs ∧ followsName a = true := by
  cases gap : d.gap with
  | cons a gap =>
    have blank := wellFormed.blank a (by rw [gap]; exact List.mem_cons_self)
    exact ⟨a, _, rfl, by rw [followsName, blank]; rfl⟩
  | nil =>
    rw [Declarator.rest, List.append_assoc]
    cases d.dimensions with
    | cons part parts => exact ⟨'[', _, rfl, rfl⟩
    | nil =>
      obtain ⟨a, cs, begins, first⟩ := initializer_begins ends more d
      exact ⟨a, cs, begins, Bool.or_eq_true_iff.mpr (Or.inr first)⟩

theorem declarator_read (wellFormed : d.WellFormed) (turns : Nat) (isFirst : Bool) :
    declaratorNames (turns + 1) isFirst (d.text ++ c :: more) =
      d.name :: declaratorNames.continued turns (c :: more) := by
  obtain ⟨a, cs, begins, follows⟩ := follows_name ends more wellFormed
  have starts : (d.name ++ (d.gap ++ (d.rest ++ c :: more))).head?.any isDeclaratorSign = false :=
    head_excludes (wellFormed.identifier.starts _) fun _ sign => (sign_separates sign).2
  have stops : (d.gap ++ (d.rest ++ c :: more)).head?.any isAsciiWord = false := by
    rw [begins]
    exact (follows_name_separates follows).2
  have no_parenthesis : (d.initializerText ++ c :: more).head? ≠ some '(' := by
    obtain ⟨a, cs, begins, first⟩ := initializer_begins ends more d
    rw [begins, List.head?_cons]
    exact fun same => (ends_dimensions_apart first).2.2 (Option.some.inj same)
  have text : d.text ++ c :: more = d.signs ++ (d.name ++ (d.gap ++ (d.rest ++ c :: more))) := by
    simp [Declarator.text]
  rw [declarator_names_step, text, drop_run wellFormed.signs starts,
    name_read wellFormed.identifier stops]
  dsimp only
  rw [dimensions_read ends more wellFormed,
    if_neg (Bool.eq_false_iff.mp wellFormed.unreserved), decide_eq_false no_parenthesis,
    Bool.and_false, initializer_read ends more wellFormed]
  rfl

end

end Authorship.Lexicon
