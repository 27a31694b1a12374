import Authorship.Proofs.DeclaratorParts

/-
A declaration as it is written: a type, the declarators after it with commas between them, and a
semicolon. All the names are found, and the type is the only one that is found up to the semicolon.
-/
namespace Authorship.Lexicon

open Pattern Text

def listText (d : Declarator) : List Declarator → List Char
  | [] => d.text ++ [';']
  | e :: ds => d.text ++ ',' :: listText e ds

theorem list_text_length (d : Declarator) (ds : List Declarator) :
    ds.length < (listText d ds).length := by
  induction ds generalizing d with
  | nil => simp [listText]
  | cons e ds ih =>
    have := ih e
    simp only [listText, List.length_append, List.length_cons]
    omega

theorem list_read {d : Declarator} {ds : List Declarator}
    (wellFormed : ∀ e ∈ d :: ds, e.WellFormed) {turns : Nat} (enough : ds.length < turns)
    (isFirst : Bool) (after : List Char) :
    declaratorNames turns isFirst (listText d ds ++ after) = (d :: ds).map (·.name) := by
  induction ds generalizing d turns isFirst with
  | nil =>
    obtain ⟨turns, rfl⟩ : ∃ more, turns = more + 1 := ⟨turns - 1, by omega⟩
    rw [listText, List.append_assoc, List.singleton_append,
      declarator_read rfl after (wellFormed d List.mem_cons_self), not_continued turns (by simp)]
    rfl
  | cons e ds ih =>
    obtain ⟨first, later⟩ := List.forall_mem_cons.mp wellFormed
    rw [List.length_cons] at enough
    obtain ⟨turns, rfl⟩ : ∃ more, turns = more + 1 := ⟨turns - 1, by omega⟩
    rw [listText, List.append_assoc, List.cons_append, declarator_read rfl _ first,
      continued_after_comma, ih later (by omega)]
    rfl

/- No type stands in the list. -/

theorem no_type_word_nil : NoTypeWord [] := by decide

theorem NoTypeWord.past {cs text : List Char} (none : NoTypeWord text)
    (separators : ∀ c ∈ cs, isSeparator c = true) : NoTypeWord (cs ++ text) := by
  induction cs with
  | nil => exact none
  | cons c cs ih =>
    obtain ⟨first, later⟩ := List.forall_mem_cons.mp separators
    exact (ih later).cons first

theorem blank_separates {c : Char} (blank : isAsciiBlank c = true) : isSeparator c = true :=
  (follows_name_separates (by rw [followsName, blank]; rfl)).1

theorem ascii_word_is_word {c : Char} (word : isAsciiWord c = true) : isWord c = true := by
  rw [isWord, if_pos (ascii_word_is_ascii word)]
  exact word

theorem no_type_in_dimensions {parts : List Dimension} {text : List Char}
    (wellFormed : ∀ part ∈ parts, part.WellFormed) (none : NoTypeWord text) :
    NoTypeWord (parts.flatMap Dimension.text ++ text) := by
  induction parts with
  | nil => exact none
  | cons part parts ih =>
    obtain ⟨first, later⟩ := List.forall_mem_cons.mp wellFormed
    have split : (part :: parts).flatMap Dimension.text ++ text =
        '[' :: (part.inside ++ ']' :: (part.gap ++ (parts.flatMap Dimension.text ++ text))) := by
      simp [Dimension.text]
    have closes : isSeparator ']' = true := by decide
    have next :=
      ((ih later).past fun c member => blank_separates (first.blank c member)).cons closes
    rw [split]
    exact (first.no_type.append next rfl).cons (by decide)

theorem Declarator.no_type_in_rest {d : Declarator} (wellFormed : d.WellFormed) :
    NoTypeWord d.rest := by
  refine no_type_in_dimensions wellFormed.dimensions ?_
  rw [initializerText]
  cases init : d.initializer with
  | none => exact no_type_word_nil
  | some cs => exact (wellFormed.no_type cs init).cons (by decide)

theorem Declarator.no_type {d : Declarator} (wellFormed : d.WellFormed) : NoTypeWord d.text := by
  have after : NoTypeWord (d.gap ++ d.rest) :=
    (Declarator.no_type_in_rest wellFormed).past fun c member =>
      blank_separates (wellFormed.blank c member)
  have apart : (d.gap ++ d.rest).head?.all isSeparator = true := by
    obtain ⟨a, cs, begins, follows⟩ := follows_name (c := ';') rfl [] wellFormed
    rw [← List.append_assoc] at begins
    cases text : d.gap ++ d.rest with
    | nil => rfl
    | cons b bs =>
      rw [text] at begins
      obtain ⟨rfl, -⟩ := List.cons.inj begins
      exact (follows_name_separates follows).1
  have words (c : Char) (member : c ∈ d.name) : isWord c = true :=
    ascii_word_is_word (wellFormed.identifier.continues c member)
  have name : NoTypeWord d.name := no_type_word_of_name words wellFormed.unreserved
  exact (name.append after apart).past fun c member =>
    (sign_separates (wellFormed.signs c member)).1

theorem no_type_in_list {d : Declarator} {ds : List Declarator}
    (wellFormed : ∀ e ∈ d :: ds, e.WellFormed) : NoTypeWord (listText d ds) := by
  induction ds generalizing d with
  | nil =>
    exact (Declarator.no_type (wellFormed d List.mem_cons_self)).append
      (no_type_word_nil.cons (by decide)) rfl
  | cons e ds ih =>
    obtain ⟨first, later⟩ := List.forall_mem_cons.mp wellFormed
    exact (Declarator.no_type first).append ((ih later).cons (by decide)) rfl

/- The type ends where the list begins. -/

theorem list_text_begins (d : Declarator) (ds : List Declarator) :
    ∃ c more, endsInitializer c = true ∧ listText d ds = d.text ++ c :: more := by
  cases ds with
  | nil => exact ⟨';', [], rfl, rfl⟩
  | cons e ds => exact ⟨',', listText e ds, rfl, rfl⟩

theorem blank_starts_no_name {c : Char} (blank : isBlank c = true) : isNameStart c = false := by
  refine Bool.eq_false_iff.mpr fun starts => ?_
  have word := ascii_word_is_word (name_start_is_word starts)
  rw [blank_not_word blank] at word
  cases word

theorem name_ends_type {signs name rest : List Char}
    (isSign : ∀ c ∈ signs, isDeclaratorSign c = true) (identifier : IsIdentifier name)
    (unreserved : isReserved name = false) (ends : beginsWord rest = false) :
    isReserved (firstWord ((signs ++ (name ++ rest)).dropWhile isBlank)) = false := by
  have words (c : Char) (member : c ∈ name) : isWord c = true :=
    ascii_word_is_word (identifier.continues c member)
  induction signs with
  | nil =>
    have solid := head_excludes (identifier.starts rest) fun _ => blank_starts_no_name
    have none : ∀ c ∈ ([] : List Char), isBlank c = true := List.forall_mem_nil _
    have same := drop_run none solid
    rw [List.nil_append] at same
    rw [List.nil_append, same, firstWord, take_run words ends]
    exact unreserved
  | cons c signs ih =>
    obtain ⟨first, later⟩ := List.forall_mem_cons.mp isSign
    rw [List.cons_append]
    by_cases blank : isBlank c = true
    · rw [List.dropWhile_cons_of_pos blank]
      exact ih later
    · have other := separator_not_word (sign_separates first).1
      rw [List.dropWhile_cons_of_neg blank, firstWord,
        List.takeWhile_cons_of_neg (Bool.eq_false_iff.mp other)]
      decide

theorem list_ends_type {d : Declarator} (ds : List Declarator) (wellFormed : d.WellFormed)
    (apart : d.signs ≠ []) (after : List Char) : EndsType (listText d ds ++ after) := by
  obtain ⟨c, more, ends, text⟩ := list_text_begins d ds
  obtain ⟨a, cs, begins, follows⟩ := follows_name ends (more ++ after) wellFormed
  have next : beginsWord (d.gap ++ (d.rest ++ c :: (more ++ after))) = false := by
    rw [begins]
    exact separator_not_word (follows_name_separates follows).1
  have parts : listText d ds ++ after =
      d.signs ++ (d.name ++ (d.gap ++ (d.rest ++ c :: (more ++ after)))) := by
    simp [text, Declarator.text]
  rw [parts]
  constructor
  · obtain ⟨s, signs, split⟩ := List.exists_cons_of_ne_nil apart
    have sign := wellFormed.signs s (by rw [split]; exact List.mem_cons_self)
    rw [split]
    exact separator_not_word (sign_separates sign).1
  · exact name_ends_type wellFormed.signs wellFormed.identifier wellFormed.unreserved next

/- The header of a loop. -/

/-- The word `for` and an opening parenthesis end the text. -/
def InForHeader (before : List Char) : Prop :=
  ∃ earlier gap gap', before = earlier ++ ("for".toList ++ (gap ++ '(' :: gap')) ∧
    (∀ c ∈ gap, isBlank c = true) ∧ (∀ c ∈ gap', isBlank c = true) ∧
    earlier.getLast?.any (fun c => isAlphanumeric c || c = '_') = false

theorem follows_for_iff (before : List Char) :
    followsForParenthesis before.reverse = true ↔ InForHeader before := by
  have blanks {cs : List Char} : ∀ c ∈ (cs.takeWhile isBlank).reverse, isBlank c = true :=
    fun c member => List.mem_takeWhile_imp (List.mem_reverse.mp member)
  constructor
  · intro follows
    unfold followsForParenthesis at follows
    split at follows
    · rename_i rest parenthesis
      split at follows
      · rename_i earlier word
        refine ⟨earlier.reverse, (rest.takeWhile isBlank).reverse,
          (before.reverse.takeWhile isBlank).reverse, ?_, blanks, blanks, ?_⟩
        · have text : before.reverse = before.reverse.takeWhile isBlank ++
              '(' :: (rest.takeWhile isBlank ++ 'r' :: 'o' :: 'f' :: earlier) := by
            rw [← word, List.takeWhile_append_dropWhile, ← parenthesis,
              List.takeWhile_append_dropWhile]
          have turned := congrArg List.reverse text
          rw [List.reverse_reverse] at turned
          simpa using turned
        · rw [List.getLast?_reverse]
          simpa using follows
      · cases follows
    · cases follows
  · rintro ⟨earlier, gap, gap', rfl, blank, blank', apart⟩
    have text : (earlier ++ ("for".toList ++ (gap ++ '(' :: gap'))).reverse =
        gap'.reverse ++ '(' :: (gap.reverse ++ 'r' :: 'o' :: 'f' :: earlier.reverse) := by simp
    have outer (c : Char) (member : c ∈ gap'.reverse) := blank' c (List.mem_reverse.mp member)
    have inner (c : Char) (member : c ∈ gap.reverse) := blank c (List.mem_reverse.mp member)
    have parenthesis :
      ('(' :: (gap.reverse ++ 'r' :: 'o' :: 'f' :: earlier.reverse)).head?.any isBlank = false := rfl
    have word : ('r' :: 'o' :: 'f' :: earlier.reverse).head?.any isBlank = false := rfl
    have left : ('r' :: 'o' :: 'f' :: earlier.reverse).drop 3 = earlier.reverse := rfl
    rw [text, follows_for_eq, drop_run outer parenthesis, List.head?_cons, List.tail_cons,
      drop_run inner word, left, List.head?_reverse, apart]
    rfl

theorem follows_for_past (before behind : List Char) :
    followsForParenthesis (before ++ ';' :: behind) = followsForParenthesis before := by
  have solid (cs : List Char) : (cs ++ ';' :: behind).dropWhile isBlank =
      cs.dropWhile isBlank ++ ';' :: behind := by
    rw [List.dropWhile_append]
    split
    · rename_i none
      rw [List.isEmpty_iff.mp none]
      rfl
    · rfl
  rw [follows_for_eq, follows_for_eq, solid]
  cases before.dropWhile isBlank with
  | nil => rfl
  | cons c cs =>
    rw [List.cons_append, List.head?_cons, List.head?_cons, List.tail_cons, List.tail_cons, solid]
    -- The semicolon is no letter of the word, and does not go on with it.
    rcases cs.dropWhile isBlank with _ | ⟨r, _ | ⟨o, _ | ⟨f, _ | ⟨next, rest⟩⟩⟩⟩
    · simp [List.isPrefixOf]
    · simp [List.isPrefixOf]
    · simp [List.isPrefixOf]
    · rfl
    · rfl

def declaredBy (found : Match) : List Declaration :=
  (declaratorNames found.after.length true found.after).map
    (⟨·, followsForParenthesis found.before⟩)

theorem declared_by_past (behind : List Char) (m : Match) :
    declaredBy (m.past (';' :: behind)) = declaredBy m := by
  rw [declaredBy, declaredBy, Match.past, follows_for_past]

theorem declared_after_semicolon (behind after : List Char) :
    (matchesFrom declaredType (';' :: behind) 0 after).flatMap declaredBy = declarations after := by
  have same : matchesFrom declaredType ([] ++ ';' :: behind) 0 after = _ :=
    matches_from_past (declared_type_local rfl) [] 0 after
  rw [List.nil_append] at same
  rw [same, List.flatMap_map, declarations, allMatches]
  exact congrArg (List.flatMap · _) (funext (declared_by_past behind))

theorem list_text_ends (d : Declarator) (ds : List Declarator) :
    ∃ body, listText d ds = body ++ [';'] := by
  induction ds generalizing d with
  | nil => exact ⟨d.text, rfl⟩
  | cons e ds ih =>
    obtain ⟨body, ends⟩ := ih e
    exact ⟨d.text ++ ',' :: body, by simp [listText, ends]⟩

theorem no_match_in_list {d : Declarator} {ds : List Declarator}
    (wellFormed : ∀ e ∈ d :: ds, e.WellFormed) {passed left : List Char} {c : Char}
    (split : listText d ds = passed ++ c :: left) (behind after : List Char) :
    matchAt? declaredType (passed.reverse ++ behind) (c :: (left ++ after)) = none := by
  obtain ⟨body, text⟩ := list_text_ends d ds
  obtain ⟨left', z, last⟩ :=
    (List.eq_nil_or_concat' (c :: left)).resolve_left (List.cons_ne_nil c left)
  have parts : passed ++ left' ++ [z] = body ++ [';'] := by
    rw [List.append_assoc, ← last, ← split, text]
  obtain ⟨-, semicolon⟩ := List.append_inj' parts rfl
  obtain rfl := List.singleton_inj.mp semicolon
  have free : NoTypeWord (passed ++ (left' ++ [';'])) := by
    rw [← last, ← split]
    exact no_type_in_list wellFormed
  refine no_type_no_match ?_
  rw [← List.cons_append, last, List.reverse_append, List.reverse_reverse, List.append_assoc]
  exact free.no_type behind.reverse after

theorem list_match {before type after : List Char} {d : Declarator} {ds : List Declarator}
    (typed : TypeText type) (wellFormed : ∀ e ∈ d :: ds, e.WellFormed) (apart : d.signs ≠ [])
    (begins : endsInWord before = false)
    (first : NoTypeBefore (before ++ (type ++ (listText d ds ++ after))) before.length) :
    allMatches declaredType (before ++ (type ++ (listText d ds ++ after))) =
      ⟨before.reverse, type, listText d ds ++ after⟩ ::
        matchesFrom declaredType ((listText d ds).reverse ++ (type.reverse ++ before.reverse)) 0
          after := by
  have earlier : ∀ passed c left, before = passed ++ c :: left →
      matchAt? declaredType (passed.reverse ++ [])
        (c :: (left ++ (type ++ (listText d ds ++ after)))) = none := by
    intro passed c left split
    refine no_type_no_match fun here => ?_
    rw [List.append_nil, List.reverse_reverse] at here
    have := first passed _ (by rw [split]; simp) here
    rw [split, List.length_append, List.length_cons] at this
    omega
  rw [← List.reverse_reverse before, ends_in_word_reverse] at begins
  have found := declared_type_taken typed
    (list_ends_type ds (wellFormed d List.mem_cons_self) apart after) begins
  rw [allMatches, matches_from_none earlier, List.append_nil,
    matches_from_found typed.nonempty found,
    matches_from_none fun passed c left split => no_match_in_list wellFormed split _ after]

/-- Just the variables of the list are found up to its end, each flagged by what stands before the
type, and what follows is read by itself. -/
theorem declared_list_read {before type after : List Char} {d : Declarator}
    {ds : List Declarator} (typed : TypeText type) (wellFormed : ∀ e ∈ d :: ds, e.WellFormed)
    (apart : d.signs ≠ []) (begins : endsInWord before = false)
    (first : NoTypeBefore (before ++ (type ++ (listText d ds ++ after))) before.length) :
    ∃ flag, (flag = true ↔ InForHeader before) ∧
      declarations (before ++ (type ++ (listText d ds ++ after))) =
        (d :: ds).map (fun e => ⟨e.name, flag⟩) ++ declarations after := by
  refine ⟨followsForParenthesis before.reverse, follows_for_iff before, ?_⟩
  have own : declaredBy ⟨before.reverse, type, listText d ds ++ after⟩ =
      (d :: ds).map fun e => ⟨e.name, followsForParenthesis before.reverse⟩ := by
    have enough : ds.length < (listText d ds ++ after).length := by
      have := list_text_length d ds
      rw [List.length_append]
      omega
    rw [declaredBy, list_read wellFormed enough, List.map_map]
    rfl
  obtain ⟨body, text⟩ := list_text_ends d ds
  have rest : (matchesFrom declaredType ((listText d ds).reverse ++
      (type.reverse ++ before.reverse)) 0 after).flatMap declaredBy = declarations after := by
    rw [text, List.reverse_append, List.append_assoc]
    exact declared_after_semicolon _ after
  have parts : declarations (before ++ (type ++ (listText d ds ++ after))) =
      (allMatches declaredType (before ++ (type ++ (listText d ds ++ after)))).flatMap declaredBy :=
    rfl
  rw [parts, list_match typed wellFormed apart begins first, List.flatMap_cons, own, rest]

/-- As in `unsigned int *a = f(1, {2})`. -/
def initializedPointer : Declarator :=
  ⟨" *".toList, "a".toList, " ".toList, [], some " f(1, {2})".toList⟩

def shortArray : Declarator := ⟨" ".toList, "b".toList, [], [⟨"3".toList, " ".toList⟩], none⟩

theorem initialized_pointer_well_formed : initializedPointer.WellFormed := by
  have inner : Nested (fun _ => true) "1, {2}".toList :=
    .plain rfl rfl rfl (.plain rfl rfl rfl (.plain rfl rfl rfl
      (@Nested.group _ '{' '}' "2".toList [] rfl rfl (.plain rfl rfl rfl .nil) .nil)))
  have init : Nested (fun c => !endsInitializer c) " f(1, {2})".toList :=
    .plain rfl rfl rfl (.plain rfl rfl rfl
      (@Nested.group _ '(' ')' "1, {2}".toList [] rfl rfl inner .nil))
  exact {
    signs := List.all_eq_true.mp (by decide)
    identifier := ⟨by decide, List.all_eq_true.mp (by decide)⟩
    unreserved := by decide +kernel
    blank := List.all_eq_true.mp (by decide)
    dimensions := List.forall_mem_nil _
    nested := by rintro cs ⟨⟩; exact init
    short := by rintro cs ⟨⟩; decide +kernel
    no_type := by rintro cs ⟨⟩; decide +kernel }

theorem short_array_well_formed : shortArray.WellFormed where
  signs := List.all_eq_true.mp (by decide)
  identifier := ⟨by decide, List.all_eq_true.mp (by decide)⟩
  unreserved := by decide +kernel
  blank := List.all_eq_true.mp (by decide)
  dimensions := List.forall_mem_singleton.mpr
    ⟨.plain rfl rfl rfl .nil, by decide +kernel, by decide +kernel, List.all_eq_true.mp (by decide)⟩
  nested := by rintro cs ⟨⟩
  short := by rintro cs ⟨⟩
  no_type := by rintro cs ⟨⟩

theorem loop_variables_read : ∃ flag, (flag = true ↔ InForHeader "for (".toList) ∧
    declarations "for (unsigned int *a = f(1, {2}), b[3] ; a < b;) { char c; }".toList =
      [⟨"a".toList, flag⟩, ⟨"b".toList, flag⟩] ++ declarations " a < b;) { char c; }".toList := by
  have typed : TypeText ("unsigned".toList ++ (" ".toList ++ "int".toList)) :=
    .qualified (by decide) (by decide) (List.all_eq_true.mp (by decide)) (.word (by decide))
  have wellFormed : ∀ e ∈ initializedPointer :: [shortArray], e.WellFormed :=
    List.forall_mem_cons.mpr ⟨initialized_pointer_well_formed,
      List.forall_mem_singleton.mpr short_array_well_formed⟩
  have text : "for (unsigned int *a = f(1, {2}), b[3] ; a < b;) { char c; }".toList =
      "for (".toList ++ (("unsigned".toList ++ (" ".toList ++ "int".toList)) ++
        (listText initializedPointer [shortArray] ++ " a < b;) { char c; }".toList)) := by
    decide +kernel
  rw [text]
  exact declared_list_read typed wellFormed (by decide) (by decide)
    (no_type_before (by decide +kernel))

end Authorship.Lexicon
