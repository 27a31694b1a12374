import Authorship.Proofs.DeclaratorOffsets
import Authorship.Proofs.FunctionBodies

/-
Function definitions read by byte offsets. Braces are paired by byte and bodies cut out between
offsets; both ends of a body are where a brace or a header stands or the text ends, so that no cut
is inside a character.
-/
namespace Authorship.Lexicon

open Pattern Text

/- The reading, byte by byte. An answer is missing if a slice is. -/

def headersAt (text : List Char) : List Header :=
  ((allMatches header text).map fun found =>
    { name := nameWithin typeBeforeHeader functionName headerTail found.start
      first := utf8Length found.before
      brace := utf8Length found.before + utf8Length found.text - 1 }).filter
        fun h => isFunctionName h.name

def definitionAt (text : List Char) (pairs : List (Nat × Nat)) (limit : Nat) (h : Header) :
    Option Definition :=
  match (pairs.lookup h.brace).filter (· ≤ limit) with
  | some close => (slice? h.brace close text).map fun body =>
    { name := h.name, first := h.brace + 1, last := close, length := body.count '\n' + 1 }
  | none => (slice? h.brace limit text).map fun body =>
    { name := h.name, first := h.brace + 1, last := limit
      length := (trimEnd body).count '\n' + 1 }

def limitOffset (text : List Char) : List Header → Nat
  | [] => utf8Length text
  | next :: _ => next.first

def definitionsFromAt (text : List Char) (pairs : List (Nat × Nat)) :
    List Header → Option (List Definition)
  | [] => some []
  | h :: hs =>
    (definitionAt text pairs (limitOffset text hs) h).bind fun d =>
      (definitionsFromAt text pairs hs).map (d :: ·)

def functionDefinitionsAt (text : List Char) : Option (List Definition) :=
  definitionsFromAt text (bracePairs (byteOf '{') (byteOf '}') (utf8 text)) (headersAt text)

def offsetOf (text : List Char) (position : Nat) : Nat := utf8Length (text.take position)

variable {text : List Char}

theorem offset_append (before after : List Char) :
    offsetOf (before ++ after) before.length = utf8Length before := by
  rw [offsetOf, List.take_left]

theorem offset_of_end : offsetOf text text.length = utf8Length text := by
  rw [offsetOf, List.take_length]

theorem offset_lt {i j : Nat} (before : i < j) (inside : j ≤ text.length) :
    offsetOf text i < offsetOf text j := by
  obtain ⟨more, rfl⟩ := Nat.exists_eq_add_of_lt before
  rw [offsetOf, offsetOf, Nat.add_assoc, List.take_add, utf8_length_append,
    List.drop_eq_getElem_cons (by omega), List.take_succ_cons, utf8_length_cons]
  have positive := (text[i]).utf8Size_pos
  omega

theorem offset_le_iff {i j : Nat} (inside : i ≤ text.length) :
    offsetOf text i ≤ offsetOf text j ↔ i ≤ j := by
  constructor
  · intro le
    by_contra before
    have := offset_lt (Nat.lt_of_not_le before) inside
    omega
  · exact utf8_length_take_le text

theorem offset_inj {i j : Nat} (inside : i ≤ text.length) (inside' : j ≤ text.length) :
    offsetOf text i = offsetOf text j ↔ i = j := by
  rw [Nat.eq_iff_le_and_ge, Nat.eq_iff_le_and_ge, offset_le_iff inside, offset_le_iff inside']

theorem slice_at_offsets {i j : Nat} (order : i ≤ j) :
    slice? (offsetOf text i) (offsetOf text j) text = some (slice text i j) := by
  obtain ⟨more, rfl⟩ := Nat.exists_eq_add_of_le order
  rw [slice_iff, slice, Nat.add_sub_cancel_left]
  refine ⟨text.take i, (text.drop i).drop more, ?_, rfl, ?_⟩
  · rw [List.take_append_drop, List.take_append_drop]
  · rw [offsetOf, offsetOf, List.take_add, utf8_length_append]

theorem pair_past_others {α : Type} [DecidableEq α] {opening closing : α} {others : List α}
    (plain : ∀ x ∈ others, x ≠ opening ∧ x ≠ closing) (position : Nat) (opened : List Nat)
    (xs : List α) : pairBraces opening closing position opened (others ++ xs) =
      pairBraces opening closing (position + others.length) opened xs := by
  induction others generalizing position with
  | nil => rfl
  | cons x others ih =>
    obtain ⟨⟨unopened, unclosed⟩, rest⟩ := List.forall_mem_cons.mp plain
    rw [List.cons_append, pair_other _ _ _ unopened unclosed, ih rest, List.length_cons,
      Nat.add_right_comm, Nat.add_assoc]

theorem other_byte {a c : Char} (ascii : a.toNat < 128) (other : c ≠ a) :
    ∀ b ∈ String.utf8EncodeChar c, b ≠ byteOf a := by
  rintro b member rfl
  by_cases small : c.toNat < 128
  · rw [ascii_encoded small, List.mem_singleton] at member
    have number := congrArg UInt8.toNat member
    rw [byte_of_ascii ascii, byte_of_ascii small] at number
    exact other (Char.toNat_inj.mp number.symm)
  · have wide := wide_encoded small _ member
    rw [byte_of_ascii ascii] at wide
    omega

theorem pair_bytes (read rest : List Char) (opened : List Nat) :
    pairBraces (byteOf '{') (byteOf '}') (utf8Length read)
        (opened.map (offsetOf (read ++ rest))) (utf8 rest) =
      (pairBraces '{' '}' read.length opened rest).map
        (Prod.map (offsetOf (read ++ rest)) (offsetOf (read ++ rest))) := by
  induction rest generalizing read opened with
  | nil => rfl
  | cons c rest ih =>
    have here := offset_append read (c :: rest)
    have next (opened : List Nat) := ih (read ++ [c]) opened
    simp only [List.append_assoc, List.singleton_append, utf8_length_append, utf8_length_cons,
      List.length_append, List.length_singleton] at next
    rw [utf8_cons]
    by_cases opens : c = '{'
    · subst opens
      rw [ascii_encoded (by decide), List.singleton_append, pair_opening, pair_opening, ← next,
        List.map_cons, here]
      rfl
    by_cases closes : c = '}'
    · subst closes
      rw [ascii_encoded (by decide), List.singleton_append, pair_closing _ _ _ (by decide),
        pair_closing _ _ _ (by decide), List.map_append, ← next, List.map_tail]
      cases opened with
      | nil => rfl
      | cons start outer =>
        simp [here]
        rfl
    · rw [pair_past_others fun b member => ⟨other_byte (by decide) opens b member,
        other_byte (by decide) closes b member⟩, pair_other _ _ _ opens closes, ← next,
        String.length_utf8EncodeChar]
      rfl

theorem bytes_paired (text : List Char) :
    bracePairs (byteOf '{') (byteOf '}') (utf8 text) =
      (bracePairs '{' '}' text).map (Prod.map (offsetOf text) (offsetOf text)) :=
  pair_bytes [] text []

theorem lookup_map_keys {f : Nat → Nat} {key : Nat} {pairs : List (Nat × Nat)}
    (distinct : ∀ p ∈ pairs, f key = f p.1 ↔ key = p.1) :
    (pairs.map (Prod.map f f)).lookup (f key) = (pairs.lookup key).map f := by
  induction pairs with
  | nil => rfl
  | cons p pairs ih =>
    obtain ⟨first, others⟩ := List.forall_mem_cons.mp distinct
    rw [List.map_cons, List.lookup_cons, List.lookup_cons, ih others]
    by_cases same : key = p.1
    · simp [same]
    · have apart : f key ≠ f p.1 := fun equal => same (first.mp equal)
      rw [beq_false_of_ne same, Prod.map_fst, beq_false_of_ne apart]

theorem pair_inside {pair : Nat × Nat} (member : pair ∈ bracePairs '{' '}' text) :
    pair.1 < text.length ∧ pair.2 < text.length := by
  obtain ⟨before, body, after, rfl, _, start, stop⟩ := (mem_brace_pairs (by decide)).mp member
  simp only [List.length_append, List.length_cons]
  omega

theorem partner_by_offset {position : Nat} (inside : position < text.length) :
    (bracePairs (byteOf '{') (byteOf '}') (utf8 text)).lookup (offsetOf text position) =
      ((bracePairs '{' '}' text).lookup position).map (offsetOf text) := by
  rw [bytes_paired]
  exact lookup_map_keys fun p member =>
    offset_inj (Nat.le_of_lt inside) (Nat.le_of_lt (pair_inside member).1)

def Header.inBytes (text : List Char) (h : Header) : Header :=
  { h with first := offsetOf text h.first, brace := offsetOf text h.brace }

def Definition.inBytes (text : List Char) (d : Definition) : Definition :=
  { d with first := (d.byteSpan text).1, last := (d.byteSpan text).2 }

theorem headers_in_bytes (text : List Char) :
    headersAt text = (headers text).map (Header.inBytes text) := by
  rw [headersAt, headers, List.filter_map, List.filter_map, List.map_map]
  refine List.map_congr_left fun found member => ?_
  have fits := all_matches_fit spells_header found (List.mem_of_mem_filter member)
  obtain ⟨declared, body⟩ := fits.text_mem spells_header
  have split : text = found.before.reverse ++ (declared ++ '{' :: found.after) := by
    rw [fits.text_eq, body]
    simp
  have first : offsetOf text found.before.length = utf8Length found.before := by
    rw [split, ← List.length_reverse, offset_append, utf8_length_reverse]
  have brace : offsetOf text (found.before.length + found.text.length - 1) =
      utf8Length found.before + utf8Length found.text - 1 := by
    have place : found.before.length + found.text.length - 1 =
        (found.before.reverse ++ declared).length := by
      simp [body]
    have last : utf8Length ['{'] = 1 := by decide
    rw [place, split, ← List.append_assoc, offset_append, body, utf8_length_append,
      utf8_length_append, utf8_length_reverse, last]
    rfl
  simp only [Function.comp_apply, Header.inBytes, first, brace]

theorem offset_after_brace {position : Nat} (brace : text[position]? = some '{') :
    offsetOf text (position + 1) = offsetOf text position + 1 := by
  rw [offsetOf, List.take_add_one, brace, utf8_length_append]
  rfl

theorem definition_in_bytes {h : Header} {limit : Nat} (placed : HeaderIn text h)
    (beyond : h.brace < limit) :
    definitionAt text (bracePairs (byteOf '{') (byteOf '}') (utf8 text)) (offsetOf text limit)
        (h.inBytes text) =
      some ((definitionOf text (bracePairs '{' '}' text) limit h).inBytes text) := by
  have first := offset_after_brace placed.opens
  have reached : ((((bracePairs '{' '}' text).lookup h.brace).map (offsetOf text)).filter
        (· ≤ offsetOf text limit)) =
      (((bracePairs '{' '}' text).lookup h.brace).filter (· ≤ limit)).map (offsetOf text) := by
    cases partner : (bracePairs '{' '}' text).lookup h.brace with
    | none => rfl
    | some close =>
      have matched := (lookup_brace_pairs (by decide)).mp partner
      have placed := (pair_inside ((mem_brace_pairs (by decide)).mpr matched)).2
      simp only [Option.map_some, Option.filter_some, offset_le_iff (Nat.le_of_lt placed)]
      split <;> rfl
  rw [definitionAt, Header.inBytes, partner_by_offset placed.brace_lt, reached]
  cases found : ((bracePairs '{' '}' text).lookup h.brace).filter (· ≤ limit) with
  | none =>
    dsimp only [Option.map_none]
    rw [slice_at_offsets (Nat.le_of_lt beyond), Option.map_some]
    simp only [definitionOf, found, Definition.inBytes, Definition.byteSpan, ← first]
    rfl
  | some close =>
    have partner := (Option.filter_eq_some_iff.mp found).1
    have after := (matched_body ((lookup_brace_pairs (by decide)).mp partner)).1
    dsimp only [Option.map_some]
    rw [slice_at_offsets (Nat.le_of_lt after), Option.map_some]
    simp only [definitionOf, found, Definition.inBytes, Definition.byteSpan, ← first]
    rfl

theorem limit_in_bytes (text : List Char) (hs : List Header) :
    limitOffset text (hs.map (Header.inBytes text)) = offsetOf text (limitAfter text hs) := by
  cases hs with
  | nil => exact offset_of_end.symm
  | cons next hs => rfl

theorem definitions_in_bytes {hs : List Header} (inText : HeadersIn text hs) :
    definitionsFromAt text (bracePairs (byteOf '{') (byteOf '}') (utf8 text))
        (hs.map (Header.inBytes text)) =
      some ((definitionsFrom text (bracePairs '{' '}' text) hs).map
        (Definition.inBytes text)) := by
  induction hs with
  | nil => rfl
  | cons h hs ih =>
    have placed := inText.placed h List.mem_cons_self
    have first := definition_in_bytes placed (brace_before_limit inText)
    rw [List.map_cons, definitionsFromAt, limit_in_bytes, first, Option.bind_some, ih inText.tail,
      definitions_from_cons]
    rfl

theorem definitions_at_offsets (text : List Char) : functionDefinitionsAt text =
    some ((functionDefinitions text).map (Definition.inBytes text)) := by
  rw [functionDefinitionsAt, headers_in_bytes]
  exact definitions_in_bytes (found_headers text)

/- Where the limit of a walk cuts a character in two. -/

/-- A group that nothing closes, as long as the walk is allowed to go but for half a character. -/
def unclosedGroup : List Char := '[' :: (List.replicate (declaratorSpan - 2) 'x' ++ ['é'])

theorem unclosed_bytes (n : Nat) :
    (utf8 ('[' :: (List.replicate n 'x' ++ ['é']))).take (n + 2) =
      byteOf '[' :: (List.replicate n (byteOf 'x') ++ [0xC3]) := by
  have run : utf8 (List.replicate n 'x') = List.replicate n (byteOf 'x') := by
    induction n with
    | zero => rfl
    | succ n ih =>
      rw [List.replicate_succ, utf8_cons, ih]
      rfl
  have last : utf8 ['é'] = [0xC3, 0xA9] := by decide
  rw [utf8_cons, ascii_encoded (by decide), utf8_append, run, last, List.singleton_append,
    List.take_succ_cons, List.take_append, List.length_replicate, Nat.add_sub_cancel_left,
    List.take_of_length_le (by simp)]
  rfl

theorem unclosed_walk {step : Nat → Char → Step} (opens : step 0 '[' = .on 1)
    (plain : step 1 'x' = .on 1) : walkEnd step (utf8 unclosedGroup) 0 = declaratorSpan := by
  have on : ∀ b ∈ List.replicate (declaratorSpan - 2) (byteOf 'x') ++ [0xC3],
      byteStep step 1 b = .on 1 := by
    rw [List.forall_mem_append, List.forall_mem_singleton]
    refine ⟨fun b member => ?_, byte_step_wide step 1 (by decide)⟩
    rw [List.eq_of_mem_replicate member, byte_step_ascii step 1 (by decide), plain]
  have walked := walked_on on []
  rw [List.append_nil, List.length_append, List.length_replicate, walkedBytes] at walked
  rw [walkEnd, List.drop_zero, Nat.zero_add, unclosedGroup, show declaratorSpan =
    declaratorSpan - 2 + 2 from rfl, Nat.add_sub_cancel, unclosed_bytes, walkedBytes,
    byte_step_ascii step 0 (by decide), opens]
  dsimp only
  rw [walked]
  rfl

theorem not_between_characters : slice? 0 declaratorSpan unclosedGroup = none := by
  rw [Option.eq_none_iff_forall_ne_some]
  intro part cut
  obtain ⟨before, after, text, start, length⟩ := (slice_iff ..).mp cut
  have wide : utf8Length ['é'] = 2 := by decide
  have whole : utf8Length unclosedGroup = declaratorSpan + 1 := by
    have run (n : Nat) : utf8Length (List.replicate n 'x') = n := by
      induction n with
      | zero => rfl
      | succ n ih =>
        rw [List.replicate_succ, utf8_length_cons, ih]
        exact Nat.add_comm 1 n
    rw [unclosedGroup, utf8_length_cons, utf8_length_append, run, wide]
    rfl
  have parts := congrArg utf8Length text
  rw [utf8_length_append, utf8_length_append, whole] at parts
  -- What is left has one byte, but the last character has two.
  rcases List.eq_nil_or_concat after with rfl | ⟨others, c, rfl⟩
  · rw [show utf8Length [] = 0 from rfl] at parts
    omega
  · rw [unclosedGroup, ← List.cons_append, ← List.append_assoc, List.concat_eq_append,
      ← List.append_assoc] at text
    obtain ⟨_, last⟩ := List.append_inj' text rfl
    rw [List.concat_eq_append, ← last, utf8_length_append, wide] at parts
    omega

/-- Neither reading ever asks for a slice that is out of range or cuts a character, nor runs out of
turns, and both give what the characters say; the walks themselves can end inside a character. -/
theorem slices_between_characters :
    (∀ text : List Char, declarationsAt text = some (declarations text) ∧
      functionDefinitionsAt text =
        some ((functionDefinitions text).map (Definition.inBytes text)) ∧
      (∀ d ∈ functionDefinitions text,
        slice? (d.byteSpan text).1 (d.byteSpan text).2 text = some (d.body text)) ∧
      ∀ d ∈ declarations text, IsIdentifier d.name ∧ isReserved d.name = false) ∧
    ∃ text, slice? 0 (walkEnd groupStep (utf8 text) 0) text = none ∧
      slice? 0 (walkEnd initializerStep (utf8 text) 0) text = none := by
  refine ⟨fun text => ⟨declarations_at_offsets text, definitions_at_offsets text, ?_,
    declared_names_unreserved text⟩, unclosedGroup, ?_, ?_⟩
  · intro d member
    have bodies := definitions_from_bodies (found_headers text)
    exact slice_at_offsets (bodies.in_text (found_headers text) d member).1
  · rw [unclosed_walk rfl rfl, not_between_characters]
  · rw [unclosed_walk rfl rfl, not_between_characters]

end Authorship.Lexicon
