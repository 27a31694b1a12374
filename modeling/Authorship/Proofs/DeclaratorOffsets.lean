import Authorship.Proofs.ByteOffsets
import Authorship.Proofs.Declarators
import Authorship.Proofs.MeasuredSizes

/-
Declarations read by byte offsets. The names are slices of the text from one offset to another, and
the walks along brackets go byte by byte, so that their limit may end them inside a character. No
byte there is one that a name or a comma begins with: whatever is cut out of the text is cut out
where characters begin, and what is read is what the characters say.
-/
namespace Authorship.Lexicon

open Text

/- The reading, byte by byte. An answer is missing if a slice is, or if the turns are used up. -/

/-- A byte beyond ASCII is like any character without a meaning. -/
def byteStep (step : Nat → Char → Step) (depth : Nat) (b : UInt8) : Step :=
  if b.toNat < 128 then step depth (Char.ofNat b.toNat) else .on depth

def walkedBytes (step : Nat → Char → Step) (depth : Nat) : List UInt8 → Nat
  | [] => 0
  | b :: bs =>
    match byteStep step depth b with
    | .before => 0
    | .after => 1
    | .on depth => walkedBytes step depth bs + 1

/-- Where the walk ends that begins at an offset: where it stops, or where the bytes allowed end. -/
def walkEnd (step : Nat → Char → Step) (bytes : List UInt8) (offset : Nat) : Nat :=
  offset + walkedBytes step 0 ((bytes.drop offset).take declaratorSpan)

def readNameAt (text : List Char) (offset : Nat) : Option (Option (List Char × Nat)) :=
  if (utf8 text)[offset]?.any (onByte isNameStart) then
    let last := skipBytes isAsciiWord (utf8 text) offset
    (slice? offset last text).map fun name => some (name, last)
  else some none

def dimensionsEnd (bytes : List UInt8) : Nat → Nat → Option Nat
  | 0, _ => none
  | turns + 1, offset =>
    if bytes[offset]? = some (byteOf '[') then
      dimensionsEnd bytes turns (skipBytes isAsciiBlank bytes (walkEnd groupStep bytes offset))
    else some offset

def initializerEnd (bytes : List UInt8) (offset : Nat) : Nat :=
  if bytes[offset]? = some (byteOf '=') then walkEnd initializerStep bytes (offset + 1) else offset

def namesAt (text : List Char) : Nat → Bool → Nat → Option (List (List Char))
  | 0, _, _ => none
  | turns + 1, isFirst, offset =>
    (readNameAt text (skipBytes isDeclaratorSign (utf8 text) offset)).bind fun
      | none => some []
      | some (name, last) =>
        if isReserved name then some []
        else
          (dimensionsEnd (utf8 text) (text.length + 1)
            (skipBytes isAsciiBlank (utf8 text) last)).bind fun last =>
              if isFirst && (utf8 text)[last]? = some (byteOf '(') then some []
              else
                let last := initializerEnd (utf8 text) last
                if (utf8 text)[last]? = some (byteOf ',') then
                  (namesAt text turns false (last + 1)).map (name :: ·)
                else some [name]

def endsInHeader? (text : List Char) : Option Bool :=
  let opened := trimEnd text
  let word := trimEnd opened.dropLast
  if opened.getLast? = some '(' && ['f', 'o', 'r'].isSuffixOf word then
    (slice? 0 (utf8Length word - 3) word).map fun earlier =>
      !earlier.getLast?.any fun c => isAlphanumeric c || c = '_'
  else some false

def declarationsOf (text : List Char) (found : Pattern.Match) : Option (List Declaration) :=
  (slice? 0 (utf8Length found.before) text).bind fun before =>
    (endsInHeader? before).bind fun inForHeader =>
      (namesAt text (text.length + 1) true (utf8Length found.before + utf8Length found.text)).map
        fun names => names.map (⟨·, inForHeader⟩)

def declarationsAt (text : List Char) : Option (List Declaration) :=
  ((Pattern.allMatches declaredType text).mapM (declarationsOf text)).map List.flatten

variable {text rest : List Char} {offset : Nat}

/-- A step that sees nothing in a character beyond ASCII. -/
def NarrowStep (step : Nat → Char → Step) : Prop :=
  ∀ depth c, ¬c.toNat < 128 → step depth c = .on depth

theorem not_bracket_of_wide {c : Char} (wide : ¬c.toNat < 128) :
    isOpener c = false ∧ isCloser c = false ∧ c ≠ ',' ∧ c ≠ ';' := by
  have other {a : Char} (ascii : a.toNat < 128) : c ≠ a := fun same => wide (same ▸ ascii)
  simp only [isOpener, isCloser, Bool.or_eq_false_iff, decide_eq_false_iff_not]
  exact ⟨⟨⟨other (by decide), other (by decide)⟩, other (by decide)⟩,
    ⟨⟨other (by decide), other (by decide)⟩, other (by decide)⟩, other (by decide),
    other (by decide)⟩

theorem group_step_narrow : NarrowStep groupStep := by
  intro depth c wide
  obtain ⟨opener, closer, _⟩ := not_bracket_of_wide wide
  simp [groupStep, opener, closer]

theorem initializer_step_narrow : NarrowStep initializerStep := by
  intro depth c wide
  obtain ⟨opener, closer, comma, semicolon⟩ := not_bracket_of_wide wide
  simp [initializerStep, opener, closer, comma, semicolon]

theorem walked_on {step : Nat → Char → Step} {depth : Nat} {passed : List UInt8}
    (on : ∀ b ∈ passed, byteStep step depth b = .on depth) (bs : List UInt8) :
    walkedBytes step depth (passed ++ bs) = passed.length + walkedBytes step depth bs := by
  induction passed with
  | nil => simp
  | cons b passed ih =>
    obtain ⟨first, others⟩ := List.forall_mem_cons.mp on
    rw [List.cons_append, walkedBytes, first, List.length_cons]
    dsimp only
    rw [ih others]
    omega

theorem byte_step_ascii (step : Nat → Char → Step) (depth : Nat) {c : Char}
    (ascii : c.toNat < 128) : byteStep step depth (byteOf c) = step depth c := by
  rw [byteStep, byte_of_ascii ascii, if_pos ascii, Char.ofNat_toNat]

theorem byte_step_wide (step : Nat → Char → Step) (depth : Nat) {b : UInt8} (wide : 128 ≤ b.toNat) :
    byteStep step depth b = .on depth := by
  rw [byteStep, if_neg (Nat.not_lt.mpr wide)]

/-- The bytes that the walk passes are those of the characters that it passes, and it may end inside
the first of the others. -/
theorem walk_left {step : Nat → Char → Step} (narrow : NarrowStep step) (bytes depth : Nat)
    (cs : List Char) :
    Left cs (walkedBytes step depth ((utf8 cs).take bytes)) (walk step bytes depth cs) := by
  induction cs generalizing bytes depth with
  | nil =>
    rw [walk, utf8, List.flatMap_nil, List.take_nil, walkedBytes]
    exact .begins [] rfl rfl
  | cons c cs ih =>
    rw [walk, utf8_cons]
    have size := String.length_utf8EncodeChar c
    by_cases short : bytes < c.utf8Size
    · rw [if_pos short, List.take_append_of_le_length (by omega)]
      cases bytes with
      | zero => exact .begins [] rfl rfl
      | succ more =>
        have wide : ¬c.toNat < 128 := by
          rw [ascii_iff]
          omega
        have on : ∀ b ∈ (String.utf8EncodeChar c).take (more + 1),
            byteStep step depth b = .on depth := fun b member =>
          byte_step_wide step depth (wide_encoded wide b (List.mem_of_mem_take member))
        have passed := walked_on on []
        rw [List.append_nil, List.length_take, size, walkedBytes] at passed
        rw [passed]
        refine .inside [] rfl ?_ ?_
        · show 0 < _
          omega
        · show _ < 0 + c.utf8Size
          omega
    · rw [if_neg short]
      by_cases small : c.toNat < 128
      · have one := (ascii_iff c).mp small
        obtain ⟨more, rfl⟩ : ∃ more, bytes = more + 1 := ⟨bytes - 1, by omega⟩
        rw [ascii_encoded small, List.singleton_append, List.take_succ_cons, walkedBytes,
          byte_step_ascii step depth small, one, Nat.add_sub_cancel]
        cases step depth c with
        | before => exact .begins [] rfl rfl
        | after => exact .begins [c] rfl (by rw [utf8_length_cons, one]; rfl)
        | on depth =>
          have next := (ih more depth).past [c]
          rw [utf8_length_cons, one, Nat.add_comm] at next
          exact next
      · have on : ∀ b ∈ String.utf8EncodeChar c, byteStep step depth b = .on depth :=
          fun b member => byte_step_wide step depth (wide_encoded small b member)
        rw [narrow depth c small, List.take_append, size,
          List.take_of_length_le (by rw [size]; omega), walked_on on, size]
        exact (ih (bytes - c.utf8Size) depth).past [c]

theorem walk_end_left {step : Nat → Char → Step} (narrow : NarrowStep step)
    (passed cs : List Char) :
    Left (passed ++ cs) (walkEnd step (utf8 (passed ++ cs)) (utf8Length passed))
      (walk step declaratorSpan 0 cs) := by
  rw [walkEnd, drop_passed]
  exact (walk_left narrow declaratorSpan 0 cs).past passed

theorem sign_ascii : AsciiOnly isDeclaratorSign := by
  intro c sign
  simp only [isDeclaratorSign, isAsciiBlank, Bool.or_eq_true, decide_eq_true_eq] at sign
  rcases sign with (((((rfl | rfl) | rfl) | rfl) | rfl) | rfl) | rfl <;> decide

theorem blank_ascii : AsciiOnly isAsciiBlank := by
  intro c blank
  exact sign_ascii c (by simp [isDeclaratorSign, blank])

theorem word_ascii : AsciiOnly isAsciiWord := fun _ word => ascii_word_is_ascii word

theorem name_start_ascii : AsciiOnly isNameStart :=
  fun _ start => ascii_word_is_ascii (name_start_is_word start)

theorem read_name_at (left : Left text offset rest) :
    (readName rest = none ∧ readNameAt text offset = some none) ∨
      ∃ name after last, readName rest = some (name, after) ∧
        readNameAt text offset = some (some (name, last)) ∧ Left text last after := by
  rw [readName, readNameAt, left.any_byte name_start_ascii]
  by_cases starts : rest.head?.any isNameStart = true
  · right
    rw [if_pos starts, if_pos starts]
    obtain ⟨c, cs, rfl⟩ : ∃ c cs, rest = c :: cs := by
      cases rest with
      | nil => cases starts
      | cons c cs => exact ⟨c, cs, rfl⟩
    obtain ⟨passed, rfl, rfl⟩ := left.cons (name_start_ascii c starts)
    refine ⟨_, _, skipBytes isAsciiWord (utf8 (passed ++ c :: cs)) (utf8Length passed), rfl, ?_,
      left.skip word_ascii⟩
    have cut : slice? (utf8Length passed)
        (skipBytes isAsciiWord (utf8 (passed ++ c :: cs)) (utf8Length passed)) (passed ++ c :: cs) =
          some ((c :: cs).takeWhile isAsciiWord) := by
      rw [slice_iff]
      refine ⟨passed, (c :: cs).dropWhile isAsciiWord, ?_, rfl, ?_⟩
      · rw [List.takeWhile_append_dropWhile]
      · rw [skip_passed word_ascii, utf8_length_append]
    simp only [cut, Option.map_some]
  · exact Or.inl ⟨if_neg starts, if_neg starts⟩

theorem dimensions_left {turns turns' : Nat} (left : Left text offset rest)
    (enough : rest.length < turns) (enough' : rest.length ≤ turns') :
    ∃ last, dimensionsEnd (utf8 text) turns offset = some last ∧
      Left text last (skipDimensions turns' rest) := by
  induction turns generalizing turns' offset rest with
  | zero => omega
  | succ turns ih =>
    have here := left.byte_iff (a := '[') (by decide)
    rw [dimensionsEnd]
    by_cases opens : rest.head? = some '['
    · rw [if_pos (here.mpr opens)]
      obtain ⟨cs, rfl⟩ := List.head?_eq_some_iff.mp opens
      obtain ⟨passed, rfl, rfl⟩ := left.cons (by decide)
      rw [List.length_cons] at enough enough'
      obtain ⟨more, rfl⟩ : ∃ more, turns' = more + 1 := ⟨turns' - 1, by omega⟩
      rw [skipDimensions]
      have ended := (walk_end_left group_step_narrow passed ('[' :: cs)).skip blank_ascii
      have shorter : ((skipGroup declaratorSpan 0 ('[' :: cs)).dropWhile isAsciiBlank).length ≤
          cs.length :=
        (List.dropWhile_sublist _).length_le.trans (skip_group_shorter cs)
      rw [← skip_group_eq] at ended
      exact ih ended (by omega) (by omega)
    · rw [if_neg fun same => opens (here.mp same)]
      refine ⟨offset, rfl, ?_⟩
      have stays : skipDimensions turns' rest = rest := by
        cases turns' with
        | zero => rfl
        | succ more =>
          unfold skipDimensions
          split
          · exact absurd rfl opens
          · rfl
      rwa [stays]

theorem initializer_left (left : Left text offset rest) :
    Left text (initializerEnd (utf8 text) offset) (afterInitializer rest) := by
  have here := left.byte_iff (a := '=') (by decide)
  rw [initializerEnd]
  by_cases equals : rest.head? = some '='
  · rw [if_pos (here.mpr equals)]
    obtain ⟨cs, rfl⟩ := List.head?_eq_some_iff.mp equals
    obtain ⟨passed, rfl, rfl⟩ := left.cons (by decide)
    have ended := walk_end_left initializer_step_narrow (passed ++ ['=']) cs
    rw [← skip_initializer_eq, List.append_assoc, List.singleton_append,
      utf8_length_append] at ended
    exact ended
  · rw [if_neg fun same => equals (here.mp same)]
    have stays : afterInitializer rest = rest := by
      unfold afterInitializer
      split
      · exact absurd rfl equals
      · rfl
    rwa [stays]

theorem names_at_offset {turns turns' : Nat} (left : Left text offset rest)
    (enough : rest.length < turns) (enough' : rest.length ≤ turns') (isFirst : Bool) :
    namesAt text turns isFirst offset = some (declaratorNames turns' isFirst rest) := by
  induction turns generalizing turns' offset rest isFirst with
  | zero => omega
  | succ turns ih =>
    have inText := left.length_le
    have signs := (List.dropWhile_sublist (l := rest) isDeclaratorSign).length_le
    rw [namesAt]
    rcases read_name_at (left.skip sign_ascii) with
      ⟨none, missing⟩ | ⟨name, after, last, read, found, left⟩
    · rw [missing]
      cases turns' with
      | zero => rw [Option.bind_some, declaratorNames]
      | succ more => rw [Option.bind_some, declarator_names_step, none]
    · have shorter := read_name_shorter read
      obtain ⟨more, rfl⟩ : ∃ more, turns' = more + 1 := ⟨turns' - 1, by omega⟩
      rw [found, declarator_names_step, read, Option.bind_some]
      dsimp only
      have blanks := (List.dropWhile_sublist (l := after) isAsciiBlank).length_le
      have inText := left.length_le
      obtain ⟨last, ended, left⟩ : ∃ stop, dimensionsEnd (utf8 text) (text.length + 1)
          (skipBytes isAsciiBlank (utf8 text) last) = some stop ∧
            Left text stop (afterDimensions (after.dropWhile isAsciiBlank)) :=
        dimensions_left (left.skip blank_ascii) (by omega) (Nat.le_refl _)
      rw [ended, Option.bind_some]
      have dimensions : (afterDimensions (after.dropWhile isAsciiBlank)).length ≤
          (after.dropWhile isAsciiBlank).length := skip_dimensions_length _ _
      generalize afterDimensions (after.dropWhile isAsciiBlank) = rest at left dimensions ⊢
      have parenthesis := left.byte_iff (a := '(') (by decide)
      by_cases reserved : isReserved name = true
      · rw [if_pos reserved, if_pos reserved]
      rw [if_neg reserved, if_neg reserved]
      have same : (isFirst && decide ((utf8 text)[last]? = some (byteOf '('))) =
          (isFirst && decide (rest.head? = some '(')) := by
        rw [decide_eq_decide.mpr parenthesis]
      by_cases header : (isFirst && decide (rest.head? = some '(')) = true
      · rw [if_pos (same.trans header), if_pos header]
      rw [if_neg (same.trans_ne header), if_neg header]
      have initializer := after_initializer_length rest
      replace left := initializer_left left
      generalize afterInitializer rest = rest' at left initializer ⊢
      have comma := left.byte_iff (a := ',') (by decide)
      by_cases more_names : rest'.head? = some ','
      · obtain ⟨cs, rfl⟩ := List.head?_eq_some_iff.mp more_names
        obtain ⟨passed, text_eq, place⟩ := left.cons (by decide)
        have next : Left text (initializerEnd (utf8 text) last + 1) cs := by
          refine .begins (passed ++ [',']) (by simp [text_eq]) ?_
          rw [utf8_length_append, place]
          rfl
        rw [List.length_cons] at initializer
        have room : cs.length ≤ more := by omega
        rw [if_pos (comma.mpr more_names), ih next (by omega) room false,
          Option.map_some, continued_after_comma]
      · rw [if_neg fun same => more_names (comma.mp same), not_continued more more_names]

/- What stands before the type. -/

theorem ends_in_header (before : List Char) :
    endsInHeader? before = some (followsForParenthesis before.reverse) := by
  have last : (trimEnd before).getLast? = (before.reverse.dropWhile isBlank).head? := by
    rw [trimEnd, List.getLast?_reverse]
  have word : trimEnd (trimEnd before).dropLast =
      ((before.reverse.dropWhile isBlank).tail.dropWhile isBlank).reverse := by
    rw [trimEnd, trimEnd, List.dropLast_reverse, List.reverse_reverse]
  rw [endsInHeader?, follows_for_eq, last, word]
  generalize (before.reverse.dropWhile isBlank).tail.dropWhile isBlank = behind
  have reversed :
      ['f', 'o', 'r'].isSuffixOf behind.reverse = ['r', 'o', 'f'].isPrefixOf behind := by
    rw [List.isSuffixOf, List.reverse_reverse]
    rfl
  rw [reversed]
  by_cases header : ((before.reverse.dropWhile isBlank).head? = some '(' &&
      ['r', 'o', 'f'].isPrefixOf behind) = true
  · rw [if_pos header, header, Bool.true_and]
    obtain ⟨earlier, rfl⟩ := List.isPrefixOf_iff_prefix.mp (Bool.and_eq_true_iff.mp header).2
    have cut : slice? 0 (utf8Length (['r', 'o', 'f'] ++ earlier).reverse - 3)
        (['r', 'o', 'f'] ++ earlier).reverse = some earlier.reverse := by
      rw [slice_iff, List.reverse_append, utf8_length_append]
      exact ⟨[], ['f', 'o', 'r'], rfl, rfl, Nat.zero_add _⟩
    rw [cut, Option.map_some, List.getLast?_reverse]
    rfl
  · rw [if_neg header, Bool.eq_false_iff.mpr header, Bool.false_and]

theorem declarations_of_match {found : Pattern.Match}
    (member : found ∈ Pattern.allMatches declaredType text) :
    declarationsOf text found = some ((declaratorNames found.after.length true found.after).map
      (⟨·, followsForParenthesis found.before⟩)) := by
  have text_eq := (Pattern.all_matches_fit spells_declared_type found member).text_eq
  have before : slice? 0 (utf8Length found.before) text = some found.before.reverse := by
    rw [slice_iff]
    refine ⟨[], found.text ++ found.after, text_eq, rfl, ?_⟩
    rw [Nat.zero_add, utf8_length_reverse]
  have left : Left text (utf8Length found.before + utf8Length found.text) found.after := by
    refine .begins (found.before.reverse ++ found.text) ?_ ?_
    · rw [text_eq, List.append_assoc]
    · rw [utf8_length_append, utf8_length_reverse]
  rw [declarationsOf, before, Option.bind_some, ends_in_header, Option.bind_some,
    List.reverse_reverse,
    names_at_offset left (Nat.lt_succ_of_le left.length_le) (Nat.le_refl _), Option.map_some]

theorem map_m_of_forall {α β : Type} {f : α → Option β} {g : α → β} {xs : List α}
    (each : ∀ x ∈ xs, f x = some (g x)) : xs.mapM f = some (xs.map g) := by
  induction xs with
  | nil => rfl
  | cons x xs ih =>
    obtain ⟨first, others⟩ := List.forall_mem_cons.mp each
    rw [List.mapM_cons, first, ih others]
    rfl

theorem declarations_at_offsets (text : List Char) :
    declarationsAt text = some (declarations text) := by
  rw [declarationsAt, map_m_of_forall fun found member => declarations_of_match member,
    Option.map_some, ← List.flatMap_def]
  rfl

/-- The names are identifiers, and none is a keyword or the name of a library function. -/
theorem declarator_names_unreserved (turns : Nat) (isFirst : Bool) (cs : List Char) :
    ∀ name ∈ declaratorNames turns isFirst cs, IsIdentifier name ∧ isReserved name = false := by
  induction turns generalizing isFirst cs with
  | zero => simp [declaratorNames]
  | succ turns ih =>
    have continued (cs : List Char) : ∀ name ∈ declaratorNames.continued turns cs,
        IsIdentifier name ∧ isReserved name = false := by
      unfold declaratorNames.continued
      split
      · exact ih false _
      · exact List.forall_mem_nil _
    rw [declarator_names_step]
    split
    · exact List.forall_mem_nil _
    · rename_i name afterName read
      dsimp only
      split
      · exact List.forall_mem_nil _
      · rename_i unreserved
        split
        · exact List.forall_mem_nil _
        · exact List.forall_mem_cons.mpr
            ⟨⟨(read_name_eq_some read).1, Bool.eq_false_iff.mpr unreserved⟩, continued _⟩

theorem declared_names_unreserved (text : List Char) :
    ∀ d ∈ declarations text, IsIdentifier d.name ∧ isReserved d.name = false := by
  intro d member
  obtain ⟨found, _, member⟩ := List.mem_flatMap.mp member
  obtain ⟨name, named, rfl⟩ := List.mem_map.mp member
  exact declarator_names_unreserved _ _ _ name named

end Authorship.Lexicon
