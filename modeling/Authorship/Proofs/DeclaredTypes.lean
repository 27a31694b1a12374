import Authorship.Lexicon.Declaration
import Authorship.Proofs.FunctionNames
import Authorship.Proofs.LocalPatterns

/-
The types that variables are declared with: a built-in type with any qualifiers before it. The
pattern takes the longest such text, so it stops at the end of a type exactly if what follows does
not go on with a word of the language.
-/
namespace Authorship.Lexicon

open Pattern

inductive TypeText : List Char → Prop where
  | word {type : List Char} (builtin : type ∈ spellings variableTypes) : TypeText type
  | qualified {word gap type : List Char} (listed : word ∈ spellings typeQualifiers)
      (apart : gap ≠ []) (blank : ∀ c ∈ gap, Text.isBlank c = true) (rest : TypeText type) :
      TypeText (word ++ (gap ++ type))

/-- Between these texts a type begins: its first and last words are not parts of longer ones. -/
def TypeBegins (behind ahead : List Char) : Prop :=
  endsInWord behind = false ∧
    ∃ type rest, TypeText type ∧ ahead = type ++ rest ∧ beginsWord rest = false

def firstWord (cs : List Char) : List Char := cs.takeWhile Text.isWord

theorem first_word_append {xs ys : List Char} (ends : beginsWord ys = false) :
    firstWord (xs ++ ys) = firstWord xs := by
  have none : ys.takeWhile Text.isWord = [] := by
    cases ys with
    | nil => rfl
    | cons y ys => exact List.takeWhile_cons_of_neg (by simpa [beginsWord] using ends)
  rw [firstWord, List.takeWhile_append, none, List.append_nil]
  split
  · rename_i whole
    exact ((List.takeWhile_prefix Text.isWord).eq_of_length whole).symm
  · rfl

theorem ends_in_word_append {xs ys : List Char} (nonempty : ys ≠ []) :
    endsInWord (xs ++ ys) = endsInWord ys := by
  rw [endsInWord, List.getLast?_append_of_ne_nil xs nonempty, endsInWord]

theorem blank_begins_no_word {gap rest : List Char} (apart : gap ≠ [])
    (blank : ∀ c ∈ gap, Text.isBlank c = true) : beginsWord (gap ++ rest) = false := by
  obtain ⟨c, gap, rfl⟩ := List.exists_cons_of_ne_nil apart
  simp [beginsWord, Text.blank_not_word (blank c List.mem_cons_self)]

theorem blank_ends_no_word {gap : List Char} (blank : ∀ c ∈ gap, Text.isBlank c = true) :
    endsInWord gap = false := by
  rw [endsInWord]
  cases last : gap.getLast? with
  | none => rfl
  | some c => exact Text.blank_not_word (blank c (List.mem_of_getLast? last))

theorem word_begins_no_blank {cs : List Char} (begins : beginsWord cs = true) :
    cs.head?.any Text.isBlank = false := head_excludes begins fun _ => Text.blank_not_word

/-- What the search relies on in the list of the types. -/
structure IsTypeWord (type : List Char) : Prop where
  begins : beginsWord type = true
  ends : endsInWord type = true
  reserved : isReserved (firstWord type) = true
  chars : ∀ c ∈ type, Text.isWord c = true ∨ c = ':'

theorem type_word {type : List Char} (builtin : type ∈ spellings variableTypes) :
    IsTypeWord type where
  begins := (by decide : ∀ type ∈ spellings variableTypes, beginsWord type = true) type builtin
  ends := (by decide : ∀ type ∈ spellings variableTypes, endsInWord type = true) type builtin
  reserved := (by decide +kernel : ∀ type ∈ spellings variableTypes,
    isReserved (firstWord type) = true) type builtin
  chars c member := by
    have all : ∀ type ∈ spellings variableTypes, type.all (fun c => Text.isWord c || c = ':') := by
      decide
    simpa using List.all_eq_true.mp (all type builtin) c member

theorem first_word_of_qualifier : ∀ word ∈ spellings typeQualifiers, firstWord word = word := by
  decide

theorem qualifier_reserved : ∀ word ∈ spellings typeQualifiers, isReserved word = true := by
  decide +kernel

/-- No two types begin with the same word, and one that begins with a qualifier is a qualifier. -/
theorem type_of_first_word : ∀ type ∈ spellings variableTypes,
    (∀ other ∈ spellings variableTypes, firstWord other = firstWord type → other = type) ∧
      ∀ word ∈ spellings typeQualifiers, word = firstWord type → word = type := by
  decide

/- The parts of a type. -/

theorem TypeText.begins {type : List Char} (typed : TypeText type) : beginsWord type = true := by
  cases typed with
  | word builtin => exact (type_word builtin).begins
  | qualified listed =>
    exact begins_append
      ((by decide : ∀ word ∈ spellings typeQualifiers, beginsWord word = true) _ listed)

theorem TypeText.nonempty {type : List Char} (typed : TypeText type) : type ≠ [] := by
  rintro rfl
  cases typed.begins

theorem TypeText.last_word {type : List Char} (typed : TypeText type) :
    ∃ qualifiers word, type = qualifiers ++ word ∧ word ∈ spellings variableTypes ∧
      endsInWord qualifiers = false := by
  induction typed with
  | word builtin => exact ⟨[], _, rfl, builtin, rfl⟩
  | @qualified word gap type listed apart blank rest ih =>
    obtain ⟨qualifiers, last, rfl, builtin, ends⟩ := ih
    refine ⟨word ++ (gap ++ qualifiers), last, by simp only [List.append_assoc], builtin, ?_⟩
    rw [ends_in_word_append (List.append_ne_nil_of_left_ne_nil apart _)]
    cases qualifiers with
    | nil =>
      rw [List.append_nil]
      exact blank_ends_no_word blank
    | cons c qualifiers => rwa [ends_in_word_append (List.cons_ne_nil c qualifiers)]

theorem TypeText.chars {type : List Char} (typed : TypeText type) :
    ∀ c ∈ type, Text.isWord c = true ∨ Text.isBlank c = true ∨ c = ':' := by
  induction typed with
  | word builtin =>
    intro c member
    rcases (type_word builtin).chars c member with word | colon
    · exact Or.inl word
    · exact Or.inr (Or.inr colon)
  | qualified listed apart blank rest ih =>
    intro c member
    rcases List.mem_append.mp member with inWord | member
    · have all : ∀ word ∈ spellings typeQualifiers, word.all Text.isWord := by decide
      exact Or.inl (List.all_eq_true.mp (all _ listed) c inWord)
    · rcases List.mem_append.mp member with inGap | inRest
      · exact Or.inr (Or.inl (blank c inGap))
      · exact ih c inRest

theorem type_of_parts {parts : List (List Char)} {type : List Char} (typed : TypeText type)
    (each : ∀ part ∈ parts, ∃ word ∈ spellings typeQualifiers, ∃ gap, gap ≠ [] ∧
      (∀ c ∈ gap, Text.isBlank c = true) ∧ part = word ++ gap) :
    TypeText (parts.flatten ++ type) := by
  induction parts with
  | nil => exact typed
  | cons part parts ih =>
    obtain ⟨⟨word, listed, gap, apart, blank, rfl⟩, others⟩ := List.forall_mem_cons.mp each
    rw [List.flatten_cons, List.append_assoc, List.append_assoc]
    exact .qualified listed apart blank (ih others)

theorem mem_qualifier {a b : Cursor} : b ∈ qualifier a ↔
    ∃ word ∈ spellings typeQualifiers, ∃ gap, gap ≠ [] ∧ (∀ c ∈ gap, Text.isBlank c = true) ∧
      a.Reads (word ++ gap) b ∧ b.ahead.head?.any Text.isBlank = false := by
  constructor
  · intro led
    obtain ⟨between, first, led⟩ := mem_sequence_cons.mp led
    obtain ⟨word, listed, read⟩ := mem_literals.mp first
    obtain ⟨gap, blank, apart, read', ends⟩ := mem_span1.mp led
    exact ⟨word, listed, gap, apart, blank, read.append read', ends⟩
  · rintro ⟨word, listed, gap, apart, blank, read, ends⟩
    refine mem_sequence_cons.mpr
      ⟨⟨a.before, word.reverse ++ a.taken, gap ++ b.ahead⟩, mem_literals.mpr ?_, mem_span1.mpr ?_⟩
    · exact ⟨word, listed, rfl, rfl, by rw [read.ahead, List.append_assoc]⟩
    · refine ⟨gap, blank, apart, ⟨read.before, ?_, rfl⟩, ends⟩
      rw [read.taken, List.reverse_append, List.append_assoc]

theorem spells_qualifiers : Spells (many qualifier) {cs | ∀ type, TypeText type →
    TypeText (cs ++ type)} := by
  have each : Spells qualifier {cs | ∃ word ∈ spellings typeQualifiers, ∃ gap, gap ≠ [] ∧
      (∀ c ∈ gap, Text.isBlank c = true) ∧ cs = word ++ gap} := by
    intro a b led
    obtain ⟨word, listed, gap, apart, blank, read, -⟩ := mem_qualifier.mp led
    exact ⟨word ++ gap, ⟨word, listed, gap, apart, blank, rfl⟩, read⟩
  refine each.many.mono fun cs inside type typed => ?_
  obtain ⟨parts, rfl, each⟩ := Language.mem_kstar.mp inside
  exact type_of_parts typed each

def lastWord : Pattern := sequence [literals (spellings variableTypes), boundary]

theorem mem_last_word {a b : Cursor} : b ∈ lastWord a ↔
    ∃ type ∈ spellings variableTypes, a.Reads type b ∧ beginsWord b.ahead = false := by
  have inWord {type : List Char} (builtin : type ∈ spellings variableTypes)
      (read : a.Reads type b) : (b.taken ++ b.before).head?.any Text.isWord = true := by
    have last : beginsWord type.reverse = true := by
      rw [beginsWord, ← ends_in_word_reverse, List.reverse_reverse]
      exact (type_word builtin).ends
    rw [read.taken, List.append_assoc]
    exact begins_append last
  constructor
  · intro led
    obtain ⟨stop, first, last⟩ := mem_sequence_cons.mp led
    obtain ⟨type, builtin, read⟩ := mem_literals.mp first
    obtain ⟨rfl, ends⟩ := mem_boundary.mp last
    rw [inWord builtin read] at ends
    exact ⟨type, builtin, read, Bool.eq_false_iff.mpr fun begins => ends begins.symm⟩
  · rintro ⟨type, builtin, read, ends⟩
    refine mem_sequence_cons.mpr ⟨b, mem_literals.mpr ⟨type, builtin, read⟩, ?_⟩
    refine mem_boundary.mpr ⟨rfl, ?_⟩
    rw [inWord builtin read]
    exact fun same => Bool.eq_false_iff.mp ends same.symm

theorem declared_type_reads {before ahead : List Char} {b : Cursor}
    (led : b ∈ declaredType ⟨before, [], ahead⟩) :
    ∃ type, TypeText type ∧ Cursor.Reads ⟨before, [], ahead⟩ type b ∧
      before.head?.any Text.isWord = false ∧ beginsWord b.ahead = false := by
  obtain ⟨place, bound, led⟩ := mem_sequence_cons.mp led
  obtain rfl := boundary_stays bound
  obtain ⟨between, first, last⟩ := mem_sequence_cons.mp led
  obtain ⟨qualifiers, typed, read⟩ := spells_qualifiers _ _ first
  obtain ⟨word, builtin, read', ends⟩ := mem_last_word.mp last
  have typed := typed word (.word builtin)
  have read := read.append read'
  refine ⟨qualifiers ++ word, typed, read, boundary_before bound ?_, ends⟩
  rw [show ahead = (qualifiers ++ word) ++ b.ahead from read.ahead]
  exact begins_append typed.begins

theorem match_begins_type {before ahead : List Char} {m : Match}
    (found : matchAt? declaredType before ahead = some m) : TypeBegins before.reverse ahead := by
  obtain ⟨stop, first, -⟩ := Option.map_eq_some_iff.mp found
  obtain ⟨type, typed, read, apart, ends⟩ := declared_type_reads (List.mem_of_mem_head? first)
  refine ⟨?_, type, stop.ahead, typed, read.ahead, ends⟩
  rw [ends_in_word_reverse]
  exact apart

theorem no_type_no_match {before ahead : List Char} (none : ¬TypeBegins before.reverse ahead) :
    matchAt? declaredType before ahead = Option.none := by
  cases found : matchAt? declaredType before ahead with
  | none => rfl
  | some m => exact absurd (match_begins_type found) none

theorem declared_type_local {behind : List Char} (apart : beginsWord behind = false) :
    Local behind declaredType := by
  have qualifiers : Local behind qualifier := by
    refine sequence_local (List.forall_mem_cons.mpr ⟨literals_local, ?_⟩)
    refine List.forall_mem_singleton.mpr (sequence_local ?_)
    exact List.forall_mem_cons.mpr ⟨satisfying_local, List.forall_mem_singleton.mpr span_local⟩
  apply sequence_local
  simp only [List.forall_mem_cons]
  exact ⟨boundary_local apart, many_local qualifiers, literals_local, boundary_local apart,
    List.forall_mem_nil _⟩

/- The longest type is taken. -/

/-- No type goes on into this text: neither its last word does, nor is there another word of the
language. -/
structure EndsType (rest : List Char) : Prop where
  apart : beginsWord rest = false
  other : isReserved (firstWord (rest.dropWhile Text.isBlank)) = false

variable {a b : Cursor}

theorem first_word_of_last_word (led : b ∈ lastWord a) :
    ∃ type ∈ spellings variableTypes, a.Reads type b ∧ firstWord a.ahead = firstWord type := by
  obtain ⟨type, builtin, read, ends⟩ := mem_last_word.mp led
  exact ⟨type, builtin, read, by rw [read.ahead, first_word_append ends]⟩

theorem first_word_of_mem_qualifier (led : b ∈ qualifier a) :
    ∃ word ∈ spellings typeQualifiers, ∃ gap, (∀ c ∈ gap, Text.isBlank c = true) ∧
      a.Reads (word ++ gap) b ∧ firstWord a.ahead = word ∧
      b.ahead.head?.any Text.isBlank = false := by
  obtain ⟨word, listed, gap, apart, blank, read, ends⟩ := mem_qualifier.mp led
  refine ⟨word, listed, gap, blank, read, ?_, ends⟩
  rw [read.ahead, List.append_assoc, first_word_append (blank_begins_no_word apart blank),
    first_word_of_qualifier word listed]

/-- Where the next word is not one of the language, there is neither a qualifier nor a type. -/
theorem no_type_word (other : isReserved (firstWord a.ahead) = false) :
    qualifier a = [] ∧ lastWord a = [] := by
  constructor
  · refine List.eq_nil_iff_forall_not_mem.mpr fun b led => ?_
    obtain ⟨word, listed, _, _, _, first, _⟩ := first_word_of_mem_qualifier led
    rw [first, qualifier_reserved word listed] at other
    cases other
  · refine List.eq_nil_iff_forall_not_mem.mpr fun b led => ?_
    obtain ⟨type, builtin, _, first⟩ := first_word_of_last_word led
    rw [first, (type_word builtin).reserved] at other
    cases other

theorem no_type_after {before taken type rest : List Char}
    (builtin : type ∈ spellings variableTypes) (ended : EndsType rest) :
    ∀ next ∈ qualifier ⟨before, taken, type ++ rest⟩, qualifier next = [] ∧ lastWord next = [] := by
  intro next led
  obtain ⟨word, listed, gap, blank, read, first, ends⟩ := first_word_of_mem_qualifier led
  rw [first_word_append ended.apart] at first
  obtain rfl := (type_of_first_word type builtin).2 word listed first.symm
  have after : rest = gap ++ next.ahead :=
    List.append_cancel_left (read.ahead.trans (List.append_assoc _ _ _))
  have other := ended.other
  rw [after, drop_run blank ends] at other
  exact no_type_word other

theorem after_readings {nexts places : List Cursor} (turns : Nat)
    (none : ∀ next ∈ nexts, qualifier next = [] ∧ lastWord next = []) :
    (nexts.foldr (fun next fewer => repeated qualifier turns next fewer) places).flatMap lastWord =
      places.flatMap lastWord := by
  induction nexts with
  | nil => rfl
  | cons next nexts ih =>
    obtain ⟨⟨no_qualifier, no_word⟩, later⟩ := List.forall_mem_cons.mp none
    rw [List.foldr_cons, repeated_stays no_qualifier, List.flatMap_cons, no_word, List.nil_append,
      ih later]

theorem qualifier_at {word gap rest : List Char} (listed : word ∈ spellings typeQualifiers)
    (apart : gap ≠ []) (blank : ∀ c ∈ gap, Text.isBlank c = true)
    (ends : rest.head?.any Text.isBlank = false) (before taken : List Char) :
    ∃ others, qualifier ⟨before, taken, word ++ (gap ++ rest)⟩ =
      ⟨before, (word ++ gap).reverse ++ taken, rest⟩ :: others := by
  have read : Cursor.Reads ⟨before, taken, word ++ (gap ++ rest)⟩ (word ++ gap)
      ⟨before, (word ++ gap).reverse ++ taken, rest⟩ := ⟨rfl, rfl, (List.append_assoc _ _ _).symm⟩
  refine first_of_all (fun place led => ?_)
    (mem_qualifier.mpr ⟨word, listed, gap, apart, blank, read, ends⟩)
  obtain ⟨word', listed', gap', blank', read', first, ends'⟩ := first_word_of_mem_qualifier led
  rw [first_word_append (blank_begins_no_word apart blank),
    first_word_of_qualifier word listed] at first
  subst first
  have same : word ++ gap ++ rest = word ++ gap' ++ place.ahead := read.ahead.symm.trans read'.ahead
  have gaps : gap ++ rest = gap' ++ place.ahead := by simpa using same
  have ahead : rest = place.ahead := by rw [← drop_run blank ends, gaps, drop_run blank' ends']
  rw [← ahead] at same
  rw [← List.append_cancel_right same] at read'
  exact read'.unique read

theorem first_reading {type rest : List Char} (typed : TypeText type) (ended : EndsType rest)
    {before taken : List Char} {turns : Nat} (enough : type.length ≤ turns) (fewer : List Cursor) :
    ∃ others, (repeated qualifier turns ⟨before, taken, type ++ rest⟩ fewer).flatMap lastWord =
      ⟨before, type.reverse ++ taken, rest⟩ :: others := by
  induction typed generalizing taken turns fewer with
  | @word type builtin =>
    have here : ∃ others, lastWord ⟨before, taken, type ++ rest⟩ =
        ⟨before, type.reverse ++ taken, rest⟩ :: others := by
      have read : Cursor.Reads ⟨before, taken, type ++ rest⟩ type
        ⟨before, type.reverse ++ taken, rest⟩ := ⟨rfl, rfl, rfl⟩
      refine first_of_all (fun place led => ?_)
        (mem_last_word.mpr ⟨type, builtin, read, ended.apart⟩)
      obtain ⟨other, builtin', read', first⟩ := first_word_of_last_word led
      rw [first_word_append ended.apart] at first
      obtain rfl := (type_of_first_word type builtin).1 other builtin' first.symm
      exact read'.unique read
    obtain ⟨others, here⟩ := here
    have places : (repeated qualifier turns ⟨before, taken, type ++ rest⟩ fewer).flatMap lastWord =
        (⟨before, taken, type ++ rest⟩ :: fewer).flatMap lastWord := by
      cases turns with
      | zero => rfl
      | succ turns =>
        rw [repeated]
        exact after_readings turns (no_type_after builtin ended)
    exact ⟨others ++ fewer.flatMap lastWord, by rw [places, List.flatMap_cons, here]; rfl⟩
  | @qualified word gap type listed apart blank typed ih =>
    obtain ⟨others, next⟩ := qualifier_at listed apart blank
      (word_begins_no_blank (begins_append typed.begins)) before taken
    have left : type.length < turns := by
      have := List.length_pos_iff.mpr apart
      simp only [List.length_append] at enough
      omega
    obtain ⟨more, rfl⟩ : ∃ more, turns = more + 1 := ⟨turns - 1, by omega⟩
    rw [List.append_assoc, List.append_assoc, repeated, next, List.foldr_cons]
    obtain ⟨others', first⟩ := ih (Nat.le_of_lt_succ left) _
    exact ⟨others', by rw [first]; simp⟩

theorem declared_type_taken {before type rest : List Char} (typed : TypeText type)
    (ended : EndsType rest) (apart : before.head?.any Text.isWord = false) :
    matchAt? declaredType before (type ++ rest) = some ⟨before, type, rest⟩ := by
  have bound : boundary ⟨before, [], type ++ rest⟩ = [⟨before, [], type ++ rest⟩] := by
    have begins : (type ++ rest).head?.any Text.isWord = true := begins_append typed.begins
    rw [boundary_at, List.nil_append, apart, begins]
    rfl
  have enough : type.length ≤ (type ++ rest).length := by
    rw [List.length_append]
    omega
  obtain ⟨others, first⟩ : ∃ others, (many qualifier ⟨before, [], type ++ rest⟩).flatMap lastWord =
      ⟨before, type.reverse ++ [], rest⟩ :: others := first_reading typed ended enough []
  rw [matchAt?, declaredType, sequence_cons, bound, List.flatMap_singleton, sequence_cons,
    ← lastWord, first, List.append_nil, List.head?_cons, Option.map_some, List.reverse_reverse]

def NoTypeWord (text : List Char) : Prop :=
  ∀ before type after, text = before ++ (type ++ after) → type ∈ spellings variableTypes →
    endsInWord before = true ∨ beginsWord after = true

theorem no_type_word_iff (text : List Char) : NoTypeWord text ↔
    ∀ n ≤ text.length, ∀ type ∈ spellings variableTypes, type.isPrefixOf (text.drop n) = true →
      endsInWord (text.take n) = true ∨ beginsWord (text.drop (n + type.length)) = true := by
  constructor
  · intro none n inside type builtin here
    obtain ⟨after, split⟩ := List.isPrefixOf_iff_prefix.mp here
    have rest : text.drop (n + type.length) = after := by
      rw [← List.drop_drop, ← split, List.drop_left]
    rw [rest]
    exact none _ type after (by rw [split, List.take_append_drop]) builtin
  · rintro none before type after rfl builtin
    have found := none before.length (by simp) type builtin (by simp)
    simpa using found

instance (text : List Char) : Decidable (NoTypeWord text) :=
  decidable_of_iff _ (no_type_word_iff text).symm

def isSeparator (c : Char) : Bool := !Text.isWord c && c ≠ ':'

theorem separator_not_word {c : Char} (separator : isSeparator c = true) :
    Text.isWord c = false := by
  rw [isSeparator, Bool.and_eq_true, Bool.not_eq_true'] at separator
  exact separator.1

theorem separator_not_in_type {type : List Char} (builtin : type ∈ spellings variableTypes)
    {c : Char} (member : c ∈ type) : isSeparator c = false := by
  rcases (type_word builtin).chars c member with word | rfl
  · simp [isSeparator, word]
  · rfl

theorem ends_append {xs ys : List Char} (ends : endsInWord ys = true) :
    endsInWord (xs ++ ys) = true := by
  rw [ends_in_word_append fun none => by rw [none] at ends; cases ends]
  exact ends

theorem NoTypeWord.cons {c : Char} {text : List Char} (none : NoTypeWord text)
    (separator : isSeparator c = true) : NoTypeWord (c :: text) := by
  intro before type after split builtin
  cases before with
  | nil =>
    obtain ⟨d, type, rfl⟩ := List.exists_cons_of_ne_nil (TypeText.word builtin).nonempty
    obtain ⟨rfl, -⟩ := List.cons.inj split
    rw [separator_not_in_type builtin List.mem_cons_self] at separator
    cases separator
  | cons d before =>
    obtain ⟨rfl, rest⟩ := List.cons.inj split
    rcases none before type after rest builtin with ends | begins
    · have later : endsInWord ([c] ++ before) = true := ends_append ends
      exact Or.inl later
    · exact Or.inr begins

theorem NoTypeWord.append {xs ys : List Char} (first : NoTypeWord xs) (second : NoTypeWord ys)
    (apart : ys.head?.all isSeparator = true) : NoTypeWord (xs ++ ys) := by
  intro before type after split builtin
  rcases List.append_eq_append_iff.mp split with ⟨left, rfl, inSecond⟩ | ⟨left, rfl, later⟩
  · rcases second left type after inSecond builtin with ends | begins
    · exact Or.inl (ends_append ends)
    · exact Or.inr begins
  · rcases List.append_eq_append_iff.mp later with ⟨right, rfl, rfl⟩ | ⟨right, rfl, inBoth⟩
    · rcases first before type right rfl builtin with ends | begins
      · exact Or.inl ends
      · exact Or.inr (begins_append begins)
    · -- No type goes over the separator that the second text begins with.
      cases right with
      | nil =>
        rw [List.append_nil] at builtin
        rcases first before left [] (by rw [List.append_nil]) builtin with ends | none
        · exact Or.inl ends
        · cases none
      | cons c right =>
        subst inBoth
        have separator : isSeparator c = true := apart
        rw [separator_not_in_type builtin (by simp)] at separator
        cases separator

/-- An identifier is one word, and the types are not free for names. -/
theorem no_type_word_of_name {name : List Char} (words : ∀ c ∈ name, Text.isWord c = true)
    (unreserved : isReserved name = false) : NoTypeWord name := by
  rintro before type after rfl builtin
  by_contra apart
  rw [not_or, Bool.not_eq_true, Bool.not_eq_true] at apart
  obtain ⟨ends, begins⟩ := apart
  have alone : before = [] ∧ after = [] := by
    constructor
    · rw [endsInWord] at ends
      cases last : before.getLast? with
      | none => exact List.getLast?_eq_none_iff.mp last
      | some c =>
        rw [last, Option.any_some, words c (by simp [List.mem_of_getLast? last])] at ends
        cases ends
    · cases after with
      | nil => rfl
      | cons c after =>
        rw [beginsWord, List.head?_cons, Option.any_some, words c (by simp)] at begins
        cases begins
  obtain ⟨rfl, rfl⟩ := alone
  rw [List.nil_append, List.append_nil] at unreserved words
  have whole : firstWord type = type := List.takeWhile_eq_self_iff.mpr words
  rw [← whole, (type_word builtin).reserved] at unreserved
  cases unreserved

theorem TypeText.first_word {type : List Char} (typed : TypeText type) :
    ∃ word ∈ spellings (typeQualifiers ++ variableTypes), word <+: type := by
  have listed {word : List Char} (member : word ∈ spellings typeQualifiers ∨
      word ∈ spellings variableTypes) : word ∈ spellings (typeQualifiers ++ variableTypes) := by
    rw [spellings, List.map_append]
    exact List.mem_append.mpr member
  cases typed with
  | word builtin => exact ⟨type, listed (Or.inr builtin), List.prefix_rfl⟩
  | @qualified word gap type qualifies apart blank rest =>
    exact ⟨word, listed (Or.inl qualifies), List.prefix_append word (gap ++ type)⟩

/-- No type begins before this place of the text. -/
def NoTypeBefore (text : List Char) (start : Nat) : Prop :=
  ∀ x y, text = x ++ y → TypeBegins x y → start ≤ x.length

theorem no_type_before {text : List Char} {start : Nat}
    (none : ∀ n < start, ∀ word ∈ spellings (typeQualifiers ++ variableTypes),
      ¬word.isPrefixOf (text.drop n)) : NoTypeBefore text start := by
  rintro x y rfl ⟨-, type, rest, typed, rfl, -⟩
  by_contra before
  obtain ⟨word, listed, begins⟩ := typed.first_word
  refine none x.length (Nat.lt_of_not_le before) word listed ?_
  rw [List.drop_left, List.isPrefixOf_iff_prefix]
  exact begins.trans (List.prefix_append type rest)

/-- Up to a semicolon there is no type either, qualifiers included: none has a semicolon in it. -/
theorem NoTypeWord.no_type {passed left : List Char}
    (none : NoTypeWord (passed ++ (left ++ [';']))) (before after : List Char) :
    ¬TypeBegins (before ++ passed) (left ++ ';' :: after) := by
  rintro ⟨apart, type, rest, typed, split, ends⟩
  obtain ⟨rest', rfl, rfl⟩ : ∃ rest', left = type ++ rest' ∧ rest = rest' ++ ';' :: after := by
    rcases List.append_eq_append_iff.mp split with ⟨excess, rfl, rest_eq⟩ | inLeft
    · cases excess with
      | nil => exact ⟨[], by simp, by simpa using rest_eq.symm⟩
      | cons c excess =>
        obtain ⟨rfl, -⟩ := List.cons.inj rest_eq
        exact absurd (typed.chars ';' (by simp)) (by decide)
    · exact inLeft
  obtain ⟨qualifiers, word, rfl, builtin, free⟩ := typed.last_word
  have place : passed ++ (qualifiers ++ word ++ rest' ++ [';']) =
      passed ++ qualifiers ++ (word ++ (rest' ++ [';'])) := by simp only [List.append_assoc]
  rcases none _ word _ place builtin with inWord | begins
  · cases qualifiers with
    | nil =>
      rw [List.append_nil] at inWord
      rw [ends_append inWord] at apart
      cases apart
    | cons c qualifiers =>
      rw [ends_in_word_append (List.cons_ne_nil c qualifiers), free] at inWord
      cases inWord
  · cases rest' with
    | nil => cases begins
    | cons c rest' =>
      rw [show beginsWord (c :: rest' ++ [';']) = beginsWord (c :: rest' ++ ';' :: after) from rfl,
        ends] at begins
      cases begins

end Authorship.Lexicon
