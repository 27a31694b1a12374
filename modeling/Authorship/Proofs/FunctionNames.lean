import Authorship.Lexicon.Function
import Authorship.Proofs.PatternMatches
import Mathlib.Tactic.IntervalCases

/-
The names that are reported for functions. Each follows a return type that begins a word, and ends
where its own word ends; nothing has to stand between the two, so that the type can be the beginning
of the word whose end is the name.
-/
namespace Authorship

namespace Text

open CharacterTable

theorem wide_blanks_not_word :
    ∀ point ∈ [0x85, 0xA0, 0x1680, 0x2028, 0x2029, 0x202F, 0x205F, 0x3000] ++ List.range' 0x2000 11,
      (within point alphabetic || within point marks || within point decimalDigits) = false := by
  decide +kernel

theorem blank_not_word {c : Char} (blank : isBlank c = true) : isWord c = false := by
  simp only [isBlank, Bool.or_eq_true, Bool.and_eq_true, decide_eq_true_eq] at blank
  rcases blank with (rfl | ⟨low, high⟩) | ⟨wide, listed⟩
  · decide
  · rw [← Char.ofNat_toNat c]
    generalize c.toNat = point at low high
    interval_cases point <;> decide
  · rw [isWord, if_neg (by omega)]
    refine wide_blanks_not_word _ ?_
    simp only [within] at listed
    simp only [List.mem_append, List.mem_cons, List.not_mem_nil, List.mem_range'_1]
    grind

end Text

namespace Lexicon

open Pattern

def qualifierText : Language Char := anyOf (spellings typeQualifiers) * allOf Text.isBlank

def templateText : Language Char := {cs | ∃ inside, cs = '<' :: (inside ++ ['>'])}

def returnText : Language Char :=
  anyOf (spellings returnTypes) +
    anyOf ["std::".toList] * (allOf Text.isWord * (templateText + 1)) +
    anyOf ["struct".toList] * (allOf Text.isBlank * allOf Text.isWord)

def typeText : Language Char := KStar.kstar qualifierText * returnText

def isGap (c : Char) : Bool := Text.isBlank c || c = '*' || c = '&'

theorem gap_not_word {c : Char} (gap : isGap c = true) : Text.isWord c = false := by
  simp only [isGap, Bool.or_eq_true, decide_eq_true_eq] at gap
  rcases gap with (blank | rfl) | rfl
  · exact Text.blank_not_word blank
  · decide
  · decide

theorem spells_any_word : Spells returnType.anyWord (allOf Text.isWord) :=
  spells_nonempty_run (spells_run Text.isWord)

theorem spells_blanks1 : Spells blanks1 (allOf Text.isBlank) :=
  spells_nonempty_run (spells_span Text.isBlank)

theorem spells_qualifier : Spells qualifier qualifierText :=
  (spells_literals _).cons spells_blanks1.last

theorem spells_template_arguments : Spells templateArguments templateText := by
  refine ((spells_char '<').cons ((spells_run _).cons (spells_char '>').last)).mono ?_
  intro cs inside
  obtain ⟨xs, opens, ys, rest, rfl⟩ := Language.mem_mul.mp inside
  obtain ⟨zs, -, ws, closes, rfl⟩ := Language.mem_mul.mp rest
  exact ⟨zs, by rw [List.mem_singleton.mp opens, List.mem_singleton.mp closes]; rfl⟩

theorem spells_return_type : Spells returnType returnText := by
  refine spells_one_of ?_
  simp only [List.forall_mem_cons]
  refine ⟨?_, ?_, ?_, List.forall_mem_nil _⟩
  · exact (spells_literals _).mono fun cs inside => Or.inl (Or.inl inside)
  · refine ((spells_literal "std::").cons
      (spells_any_word.cons spells_template_arguments.optional.last)).mono ?_
    exact fun cs inside => Or.inl (Or.inr inside)
  · refine ((spells_literal "struct").cons
      (spells_blanks1.cons spells_any_word.last)).mono ?_
    exact fun cs inside => Or.inr inside

theorem spells_pointers : Spells pointers (allOf isGap) := by
  have blank : ∀ cs ∈ allOf Text.isBlank, cs ∈ allOf isGap := by
    intro cs all c member
    simp [isGap, all c member]
  have sign : ∀ cs ∈ allOf (fun c => c = '*' || c = '&'), cs ∈ allOf isGap := by
    intro cs all c member
    have sign := all c member
    simp only [Bool.or_eq_true, decide_eq_true_eq] at sign
    simpa [isGap, or_assoc] using Or.inr sign
  exact ((spells_span _).cons ((spells_span _).cons (spells_span _).last)).mono
    (all_of_mul blank (all_of_mul sign blank))

/- A type begins a word. -/

def beginsWord (cs : List Char) : Bool := cs.head?.any Text.isWord

theorem begins_append {xs ys : List Char} (begins : beginsWord xs = true) :
    beginsWord (xs ++ ys) = true := by
  cases xs with
  | nil => simp [beginsWord] at begins
  | cons x xs => exact begins

theorem begins_mul {L M : Language Char} (first : ∀ cs ∈ L, beginsWord cs = true) :
    ∀ cs ∈ L * M, beginsWord cs = true := by
  intro cs inside
  obtain ⟨xs, opens, ys, -, rfl⟩ := Language.mem_mul.mp inside
  exact begins_append (first xs opens)

theorem return_type_begins : ∀ cs ∈ returnText, beginsWord cs = true := by
  rintro cs ((listed | standard) | struct)
  · exact (by decide : ∀ cs ∈ spellings returnTypes, beginsWord cs = true) cs listed
  · exact begins_mul (List.forall_mem_singleton.mpr (by decide)) cs standard
  · exact begins_mul (List.forall_mem_singleton.mpr (by decide)) cs struct

theorem qualifier_begins : ∀ cs ∈ qualifierText, beginsWord cs = true :=
  begins_mul (by decide : ∀ cs ∈ spellings typeQualifiers, beginsWord cs = true)

theorem type_begins : ∀ cs ∈ typeText, beginsWord cs = true := by
  intro cs inside
  obtain ⟨xs, qualifiers, ys, returned, rfl⟩ := Language.mem_mul.mp inside
  obtain ⟨parts, rfl, each⟩ := Language.mem_kstar.mp qualifiers
  cases parts with
  | nil => exact return_type_begins ys returned
  | cons part parts =>
    rw [List.flatten_cons, List.append_assoc]
    exact begins_append (qualifier_begins part (each part List.mem_cons_self))

/- What is read as type and as name. -/

theorem boundary_cons {ps : List Pattern} {L : Language Char} (spells : Spells (sequence ps) L)
    (begins : ∀ cs ∈ L, beginsWord cs = true) {before ahead : List Char} {b : Cursor}
    (led : b ∈ sequence (boundary :: ps) ⟨before, [], ahead⟩) :
    before.head?.any Text.isWord = false ∧ ∃ cs ∈ L, Cursor.Reads ⟨before, [], ahead⟩ cs b := by
  obtain ⟨a, bound, led⟩ := mem_sequence_cons.mp led
  obtain rfl := boundary_stays bound
  obtain ⟨cs, inside, read⟩ := spells _ _ led
  refine ⟨boundary_before bound ?_, cs, inside, read⟩
  rw [show ahead = cs ++ b.ahead from read.ahead]
  exact begins_append (begins cs inside)

/-- From the beginning of a match the pattern takes a type and what may stand between it and a
name. The type begins a word. -/
def TakesType (p : Pattern) : Prop :=
  ∀ before ahead b, b ∈ p ⟨before, [], ahead⟩ → before.head?.any Text.isWord = false ∧
    ∃ cs ∈ typeText * allOf isGap, Cursor.Reads ⟨before, [], ahead⟩ cs b

theorem type_and_gap_begin : ∀ cs ∈ typeText * allOf isGap, beginsWord cs = true :=
  begins_mul type_begins

theorem takes_type_before_header : TakesType typeBeforeHeader := by
  have spells : Spells (sequence [many qualifier, returnType, pointers])
      (typeText * allOf isGap) := by
    rw [typeText, mul_assoc]
    exact spells_qualifier.many.cons (spells_return_type.cons spells_pointers.last)
  exact fun before ahead b led => boundary_cons spells type_and_gap_begin led

theorem takes_type_before_called : TakesType beforeCalledName := by
  have spells : Spells (sequence [returnType, pointers]) (typeText * allOf isGap) := by
    refine (spells_return_type.cons spells_pointers.last).mono ?_
    have unqualified : returnText ≤ typeText := fun cs inside =>
      Language.append_mem_mul (Language.nil_mem_kstar _) inside
    exact mul_le_mul_left unqualified (allOf isGap)
  exact fun before ahead b led => boundary_cons spells type_and_gap_begin led

/-- The pattern takes what begins as an identifier does and ends where its word ends. -/
def TakesName (p : Pattern) : Prop :=
  ∀ a b, b ∈ p a → b.ahead.head?.any Text.isWord = false ∧
    ∃ cs, cs.head?.any Text.isNameStart = true ∧ a.Reads cs b

theorem takes_name : TakesName name := by
  intro a b led
  obtain ⟨between, first, rest⟩ := mem_sequence_cons.mp led
  obtain ⟨cs, ⟨c, starts, rfl⟩, read⟩ := spells_satisfying _ _ _ first
  obtain ⟨ds, -, read'⟩ := spells_span _ _ _ rest
  exact ⟨span_ends rest, [c] ++ ds, by simpa using starts, read.append read'⟩

theorem takes_function_name : TakesName functionName := by
  intro a c led
  obtain ⟨b, first, rest⟩ := mem_sequence_cons.mp led
  obtain ⟨ends, cs, starts, read⟩ := takes_name a b first
  obtain ⟨p, choice, rest⟩ := mem_one_of.mp rest
  rcases List.mem_cons.mp choice with rfl | choice
  · -- The second name is the last part, and where it ends the whole ends.
    obtain ⟨colons, led, rest⟩ := mem_sequence_cons.mp rest
    obtain ⟨xs, -, readColons⟩ := spells_literal _ _ _ led
    obtain ⟨tilde, led, rest⟩ := mem_sequence_cons.mp rest
    obtain ⟨ys, -, readTilde⟩ := (spells_char '~').optional _ _ led
    obtain ⟨ends, zs, -, readName⟩ := takes_name _ _ rest
    refine ⟨ends, cs ++ (xs ++ (ys ++ zs)), ?_, ?_⟩
    · cases cs with
      | nil => simp at starts
      | cons c cs => simpa using starts
    · exact read.append (readColons.append (readTilde.append readName))
  · obtain rfl := List.mem_singleton.mp choice
    obtain rfl := List.mem_singleton.mp rest
    exact ⟨ends, cs, starts, read⟩

def headerText : Language Char := {cs | ∃ declared, cs = declared ++ ['{']}

theorem header_text_mul {L M : Language Char} (tail : ∀ cs ∈ M, cs ∈ headerText) :
    ∀ cs ∈ L * M, cs ∈ headerText := by
  intro cs inside
  obtain ⟨xs, -, ys, rest, rfl⟩ := Language.mem_mul.mp inside
  obtain ⟨declared, rfl⟩ := tail ys rest
  exact ⟨xs ++ declared, by simp⟩

theorem spells_type_before_header : Spells typeBeforeHeader ⊤ :=
  (spells_boundary.cons
    (spells_qualifier.many.cons (spells_return_type.cons spells_pointers.last))).any

theorem spells_name : Spells name ⊤ := ((spells_satisfying _).cons (spells_span _).last).any

theorem spells_function_name : Spells functionName ⊤ :=
  (spells_name.cons ((spells_literal "::").cons
    ((spells_char '~').optional.cons spells_name.last)).optional.last).any

theorem spells_parameters : Spells parameters ⊤ :=
  ((spells_span _).cons ((spells_char '(').cons ((spells_lazy_run _).cons
    ((spells_char ')').cons (spells_span _).last)))).any

theorem spells_header_tail : Spells headerTail headerText := by
  have word (text : String) : Spells (optional (sequence [literal text, blanks])) (⊤ + 1) :=
    ((spells_literal text).cons (spells_span _).last).any.optional
  refine (spells_parameters.cons ((word "const").cons ((word "noexcept").cons
    (spells_char '{').last))).mono ?_
  refine header_text_mul (header_text_mul (header_text_mul ?_))
  exact List.forall_mem_singleton.mpr ⟨[], rfl⟩

theorem spells_header : Spells header headerText :=
  (spells_type_before_header.cons (spells_function_name.cons spells_header_tail.last)).mono
    (header_text_mul (header_text_mul fun _ inside => inside))

theorem spells_named_header : Spells namedHeader ⊤ :=
  ((spells_boundary.cons (spells_return_type.cons spells_pointers.last)).cons
    (spells_name.cons ((spells_span _).cons (spells_char '(').last).last)).any

theorem name_within_split {typed named tail : Pattern} {place stop : Cursor}
    (led : stop ∈ sequence [typed, named, tail] place) :
    ∃ start ∈ typed place, ∃ stop ∈ named start,
      nameWithin typed named tail place = start.textTo stop := by
  let splits := (typed place).flatMap fun start =>
    ((named start).filter fun stop => !(tail stop).isEmpty).map start.textTo
  have member {cs : List Char} : cs ∈ splits ↔ ∃ start ∈ typed place, ∃ stop ∈ named start,
      tail stop ≠ [] ∧ start.textTo stop = cs := by
    simp [splits, and_assoc]
  obtain ⟨start, first, led⟩ := mem_sequence_cons.mp led
  obtain ⟨between, second, led⟩ := mem_sequence_cons.mp led
  have some : splits ≠ [] :=
    List.ne_nil_of_mem (member.mpr ⟨start, first, between, second, List.ne_nil_of_mem led, rfl⟩)
  obtain ⟨cs, others, split⟩ := List.exists_cons_of_ne_nil some
  obtain ⟨start, first, stop, second, -, same⟩ := member.mp (split ▸ List.mem_cons_self)
  refine ⟨start, first, stop, second, ?_⟩
  rw [same, nameWithin]
  exact congrArg (fun splits => splits.head?.getD []) split

def endsInWord (cs : List Char) : Bool := cs.getLast?.any Text.isWord

/-- A place where a name stands after a return type and a gap. -/
structure NameAfterType (text before type gap name after : List Char) : Prop where
  text_eq : text = before ++ (type ++ (gap ++ (name ++ after)))
  type_mem : type ∈ typeText
  type_apart : endsInWord before = false
  gap_mem : gap ∈ allOf isGap
  name_starts : name.head?.any Text.isNameStart = true
  name_ends : beginsWord after = false

theorem ends_in_word_reverse (cs : List Char) :
    endsInWord cs.reverse = cs.head?.any Text.isWord := by
  rw [endsInWord, List.getLast?_reverse]

theorem name_of_match {typed named tail : Pattern} {text : List Char} {m : Match}
    (types : TakesType typed) (names : TakesName named)
    (fits : MatchIn (sequence [typed, named, tail]) text m) :
    ∃ before type gap after,
      NameAfterType text before type gap (nameWithin typed named tail m.start) after := by
  obtain ⟨stop, led, -⟩ := fits.led
  obtain ⟨start, first, stop, second, same⟩ := name_within_split led
  obtain ⟨apart, cs, inside, read⟩ := types _ _ _ first
  obtain ⟨ends, name, starts, read'⟩ := names _ _ second
  obtain ⟨type, typeMem, gap, gapMem, rfl⟩ := Language.mem_mul.mp inside
  refine ⟨m.before.reverse, type, gap, stop.ahead, ?_, typeMem, ?_, gapMem, ?_, ends⟩
  · rw [same, read'.text_to, fits.text_eq, show m.text ++ m.after = _ from read.ahead, read'.ahead]
    simp
  · rw [ends_in_word_reverse]
    exact apart
  · rw [same, read'.text_to]
    exact starts

theorem definitions_from_names (masked : List Char) (pairs : List (Nat × Nat))
    (hs : List Header) : (definitionsFrom masked pairs hs).map (·.name) = hs.map (·.name) := by
  induction hs with
  | nil => rfl
  | cons h hs ih => simp [definitionsFrom, definitionOf, ih]

theorem header_name {masked name : List Char}
    (reported : name ∈ (functionDefinitions masked).map (·.name)) :
    ∃ m ∈ allMatches header masked,
      nameWithin typeBeforeHeader functionName headerTail m.start = name := by
  rw [functionDefinitions, definitions_from_names] at reported
  obtain ⟨h, member, rfl⟩ := List.mem_map.mp reported
  obtain ⟨m, found, rfl⟩ := List.mem_map.mp (List.mem_of_mem_filter member)
  exact ⟨m, found, rfl⟩

theorem called_name {masked name : List Char} (reported : name ∈ functionNames masked) :
    ∃ m ∈ allMatches namedHeader masked,
      nameWithin beforeCalledName Pattern.name calledTail m.start = name := by
  have listed := List.mem_of_mem_filter (List.mem_eraseDups.mp reported)
  exact List.mem_map.mp listed

/-- The character before the name is one of a word exactly if nothing stands between it and a type
that ends in such a character. -/
theorem reported_name_joined_iff {masked name : List Char}
    (reported : name ∈ functionNames masked ∨ name ∈ (functionDefinitions masked).map (·.name)) :
    ∃ before type gap after, NameAfterType masked before type gap name after ∧
      (endsInWord (before ++ (type ++ gap)) = true ↔ gap = [] ∧ endsInWord type = true) := by
  obtain ⟨before, type, gap, after, place⟩ : ∃ before type gap after,
      NameAfterType masked before type gap name after := by
    rcases reported with called | defined
    · obtain ⟨m, found, rfl⟩ := called_name called
      exact name_of_match takes_type_before_called takes_name
        (all_matches_fit spells_named_header m found)
    · obtain ⟨m, found, rfl⟩ := header_name defined
      exact name_of_match takes_type_before_header takes_function_name
        (all_matches_fit spells_header m found)
  refine ⟨before, type, gap, after, place, ?_⟩
  have begins := type_begins type place.type_mem
  cases gap using List.reverseRecOn with
  | nil =>
    cases type using List.reverseRecOn with
    | nil => simp [beginsWord] at begins
    | append_singleton type c => simp [endsInWord, ← List.append_assoc]
  | append_singleton gap c =>
    have other : Text.isWord c = false :=
      gap_not_word (place.gap_mem c (List.mem_append_right gap List.mem_cons_self))
    simp [endsInWord, ← List.append_assoc, other]

theorem called_name_joined : "At".toList ∈ functionNames "charAt(x)".toList ∧
    ∃ before type gap after,
      NameAfterType "charAt(x)".toList before type gap "At".toList after ∧
      (endsInWord (before ++ (type ++ gap)) = true ↔ gap = [] ∧ endsInWord type = true) :=
  have reported : "At".toList ∈ functionNames "charAt(x)".toList := by decide +kernel
  ⟨reported, reported_name_joined_iff (Or.inl reported)⟩

/-- A call whose name begins with that of a type is reported by the rest of its name, which stands
nowhere in the text but within that word. -/
theorem called_name_inside_word : "At".toList ∈ functionNames "charAt(x)".toList ∧
    ∀ before after, "charAt(x)".toList = before ++ ("At".toList ++ after) →
      endsInWord before = true := by
  refine ⟨by decide +kernel, ?_⟩
  intro before after text
  have places : ∀ n ≤ 9, ("charAt(x)".toList.drop n).take 2 = "At".toList →
      endsInWord ("charAt(x)".toList.take n) = true := by decide
  have short : before.length ≤ 9 := by
    have total := congrArg List.length text
    simp only [List.length_append] at total
    have : "charAt(x)".toList.length = 9 := by decide
    omega
  have found : ("charAt(x)".toList.drop before.length).take 2 = "At".toList := by
    rw [text, List.drop_left]
    rfl
  have part : "charAt(x)".toList.take before.length = before := by rw [text, List.take_left]
  have joined := places before.length short found
  rwa [part] at joined

end Lexicon

end Authorship
