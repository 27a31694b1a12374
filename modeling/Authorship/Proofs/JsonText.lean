import Authorship.Proofs.DoubleRange
import Authorship.Proofs.NumberParts
import Authorship.Proofs.Tables

/-
JSON text, written and read again. Whatever stands around a value, its reader takes exactly what its
writer has written and gives the value back, except that an object has its entries in order then
and that what is no finite number has become null.
-/
namespace Authorship.Json

theorem hex_digit_of_char : ∀ n < 16, hexDigit? (hexChar n) = some n := by decide

theorem control_unit {n : Nat} (control : n < 0x20) :
    hexUnit? '0' '0' (hexChar (n / 16)) (hexChar (n % 16)) = some n := by
  have zero : hexDigit? '0' = some 0 := by decide
  have upper := hex_digit_of_char (n / 16) (by omega)
  have lower := hex_digit_of_char (n % 16) (by omega)
  simp only [hexUnit?, zero, upper, lower, Option.bind_eq_bind, Option.bind_some]
  exact congrArg some (by omega)

theorem read_simple_escape {letter c : Char} (cs : List Char)
    (escaped : simpleEscape? letter = some c) :
    readText ('\\' :: letter :: cs) = (readText cs).map fun (text, after) => (c :: text, after) := by
  have notUnit : letter ≠ 'u' := fun unit => by simp [unit, simpleEscape?] at escaped
  rw [readText]
  · rw [escaped]
    exact Option.map_eq_bind.symm
  · exact fun _ _ _ _ _ unit => absurd unit notUnit

theorem read_control {c : Char} (cs : List Char) (control : c.toNat < 0x20) :
    readText (['\\', 'u', '0', '0', hexChar (c.toNat / 16), hexChar (c.toNat % 16)] ++ cs) =
      (readText cs).map fun (text, after) => (c :: text, after) := by
  have noLead : isLeadSurrogate c.toNat = false := by
    rw [isLeadSurrogate, Bool.and_eq_false_iff, decide_eq_false_iff_not]
    omega
  have noTrail : isTrailSurrogate c.toNat = false := by
    rw [isTrailSurrogate, Bool.and_eq_false_iff, decide_eq_false_iff_not]
    omega
  simp only [List.cons_append, List.nil_append]
  rw [readText, control_unit control]
  simp only [Option.bind_eq_bind, Option.bind_some, noLead, noTrail, Bool.false_eq_true, ↓reduceIte,
    Char.ofNat_toNat]
  exact Option.map_eq_bind.symm

theorem read_ordinary {c : Char} (cs : List Char) (noQuote : c ≠ '"') (noEscape : c ≠ '\\')
    (noControl : ¬ c.toNat < 0x20) :
    readText (c :: cs) = (readText cs).map fun (text, after) => (c :: text, after) := by
  rw [readText]
  · simp only [noEscape, noControl, decide_false, Bool.or_self, Bool.false_eq_true, ↓reduceIte]
    exact Option.map_eq_bind.symm
  · exact noQuote
  · exact fun _ _ _ _ _ escape => absurd escape noEscape
  · exact fun _ _ escape => absurd escape noEscape

theorem read_escaped (c : Char) (cs : List Char) :
    readText (escape c ++ cs) = (readText cs).map fun (text, after) => (c :: text, after) := by
  unfold escape
  split
  case h_8 noQuote noEscape _ _ _ _ _ =>
    split
    · rename_i control
      exact read_control cs control
    · rename_i noControl
      exact read_ordinary cs noQuote noEscape noControl
  all_goals exact read_simple_escape cs rfl

theorem read_escaped_text (text rest : List Char) :
    readText (text.flatMap escape ++ '"' :: rest) = some (text, rest) := by
  induction text with
  | nil => rfl
  | cons c text ih =>
    rw [List.flatMap_cons, List.append_assoc, read_escaped, ih]
    rfl

/- Blanks before a value make no difference. -/

theorem skip_space_again (cs : List Char) : skipSpace (skipSpace cs) = skipSpace cs := by
  induction cs with
  | nil => rfl
  | cons c cs ih =>
    by_cases space : isSpace c = true
    · simpa [skipSpace, space] using ih
    · simp [skipSpace, space]

theorem skip_space_cons {c : Char} (cs : List Char) (solid : isSpace c = false) :
    skipSpace (c :: cs) = c :: cs := by
  simp [skipSpace, solid]

theorem skip_newline (layout : Layout) (cs : List Char) :
    skipSpace (layout.newline ++ cs) = skipSpace cs := by
  cases layout with
  | none => rfl
  | some depth =>
    have spaces : ∀ c ∈ '\n' :: List.replicate (indentWidth * depth) ' ', isSpace c = true := by
      intro c member
      rcases List.mem_cons.mp member with rfl | member
      · decide
      · rw [(List.mem_replicate.mp member).2]
        decide
    exact List.dropWhile_append_of_pos spaces

theorem skip_to_closer {closer : Char} {rest : List Char} (layout : Layout)
    (solid : isSpace closer = false) :
    skipSpace (layout.newline ++ closer :: rest) = closer :: rest := by
  rw [skip_newline, skip_space_cons _ solid]

theorem read_value_skip (turns depth : Nat) (cs : List Char) :
    readValue turns depth (skipSpace cs) = readValue turns depth cs := by
  cases turns with
  | zero => rw [readValue, readValue]
  | succ turns => rw [readValue, readValue, skip_space_again]

theorem read_items_skip (turns depth : Nat) (cs : List Char) :
    readItems turns depth (skipSpace cs) = readItems turns depth cs := by
  cases turns with
  | zero => rw [readItems, readItems]
  | succ turns => rw [readItems, readItems, read_value_skip]

theorem read_entries_skip (turns depth : Nat) (entries : List (String × Value)) (cs : List Char) :
    readEntries turns depth entries (skipSpace cs) = readEntries turns depth entries cs := by
  cases turns with
  | zero => rw [readEntries, readEntries]
  | succ turns => rw [readEntries, readEntries, skip_space_again]

def ReadsBack (x : Float) : Prop := readNumber (realChars x) = some (.real x, [])

def isReal (x : Float) : Option (Value × List Char) → Bool
  | some (.real y, []) => y = x
  | _ => false

theorem is_real_iff (x : Float) (found : Option (Value × List Char)) :
    isReal x found = true ↔ found = some (.real x, []) := by
  rw [isReal.eq_def]
  split
  · simp
  · rename_i other
    simp only [Bool.false_eq_true, false_iff]
    exact other x

instance : DecidablePred ReadsBack := fun x =>
  decidable_of_iff (isReal x (readNumber (realChars x)) = true) (is_real_iff x _)

mutual

/-- Nothing nests deeper than is read, and all numbers are read as they are. -/
def Legible (depth : Nat) : Value → Prop
  | .null | .bool _ | .text _ => True
  | .int n => IntFits n
  | .real x => x.isFinite = true → ReadsBack x
  | .list items => 0 < depth ∧ LegibleItems (depth - 1) items
  | .object entries => 0 < depth ∧ LegibleEntries (depth - 1) entries

def LegibleItems (depth : Nat) : List Value → Prop
  | [] => True
  | item :: items => Legible depth item ∧ LegibleItems depth items

def LegibleEntries (depth : Nat) : List (String × Value) → Prop
  | [] => True
  | (_, value) :: entries => Legible depth value ∧ LegibleEntries depth entries

end

mutual

def readBack : Value → Value
  | .null => .null
  | .bool b => .bool b
  | .text s => .text s
  | .int n => .int n
  | .real x => if x.isFinite then .real x else .null
  | .list items => .list (readBackItems items)
  | .object entries => .object (readBackEntries [] entries)

def readBackItems : List Value → List Value
  | [] => []
  | item :: items => readBack item :: readBackItems items

def readBackEntries (before : List (String × Value)) :
    List (String × Value) → List (String × Value)
  | [] => before
  | (key, value) :: entries => readBackEntries (insertEntry key (readBack value) before) entries

end

def realBack (x : Float) : Value := ((readNumber (realChars x)).map Prod.fst).getD .null

theorem real_back_of_read {x : Float} {v : Value}
    (read : readNumber (realChars x) = some (v, [])) : realBack x = v := by
  rw [realBack, read]
  rfl

mutual

/-- Nothing nests deeper than is read, and all numbers are read, not necessarily as they are. -/
def Readable (depth : Nat) : Value → Prop
  | .null | .bool _ | .text _ => True
  | .int n => IntFits n
  | .real x => x.isFinite = true → readNumber (realChars x) = some (realBack x, [])
  | .list items => 0 < depth ∧ ReadableItems (depth - 1) items
  | .object entries => 0 < depth ∧ ReadableEntries (depth - 1) entries

def ReadableItems (depth : Nat) : List Value → Prop
  | [] => True
  | item :: items => Readable depth item ∧ ReadableItems depth items

def ReadableEntries (depth : Nat) : List (String × Value) → Prop
  | [] => True
  | (_, value) :: entries => Readable depth value ∧ ReadableEntries depth entries

end

mutual

/-- What a value is after it was written and read, whatever its numbers are read as. -/
def reread : Value → Value
  | .null => .null
  | .bool b => .bool b
  | .text s => .text s
  | .int n => .int n
  | .real x => if x.isFinite then realBack x else .null
  | .list items => .list (rereadItems items)
  | .object entries => .object (rereadEntries [] entries)

def rereadItems : List Value → List Value
  | [] => []
  | item :: items => reread item :: rereadItems items

def rereadEntries (before : List (String × Value)) :
    List (String × Value) → List (String × Value)
  | [] => before
  | (key, value) :: entries => rereadEntries (insertEntry key (reread value) before) entries

end

mutual

theorem legible_readable (depth : Nat) (v : Value) (legible : Legible depth v) :
    Readable depth v ∧ reread v = readBack v := by
  cases v with
  | null => exact ⟨by rw [Readable]; trivial, by rw [reread, readBack]⟩
  | bool b => exact ⟨by rw [Readable]; trivial, by rw [reread, readBack]⟩
  | text s => exact ⟨by rw [Readable]; trivial, by rw [reread, readBack]⟩
  | int n =>
    rw [Legible] at legible
    exact ⟨by rwa [Readable], by rw [reread, readBack]⟩
  | real x =>
    rw [Legible] at legible
    rw [Readable, reread, readBack]
    have back (finite : x.isFinite = true) : realBack x = .real x :=
      real_back_of_read (legible finite)
    refine ⟨fun finite => by rw [back finite]; exact legible finite, ?_⟩
    by_cases finite : x.isFinite = true
    · rw [if_pos finite, if_pos finite, back finite]
    · rw [if_neg finite, if_neg finite]
  | list items =>
    rw [Legible] at legible
    obtain ⟨readable, same⟩ := legible_readable_items (depth - 1) items legible.2
    rw [Readable, reread, readBack, same]
    exact ⟨⟨legible.1, readable⟩, rfl⟩
  | object entries =>
    rw [Legible] at legible
    obtain ⟨readable, same⟩ := legible_readable_entries (depth - 1) entries legible.2
    rw [Readable, reread, readBack, same]
    exact ⟨⟨legible.1, readable⟩, rfl⟩

theorem legible_readable_items (depth : Nat) (items : List Value)
    (legible : LegibleItems depth items) :
    ReadableItems depth items ∧ rereadItems items = readBackItems items := by
  cases items with
  | nil => exact ⟨by rw [ReadableItems]; trivial, by rw [rereadItems, readBackItems]⟩
  | cons item items =>
    rw [LegibleItems] at legible
    obtain ⟨readable, same⟩ := legible_readable depth item legible.1
    obtain ⟨readable', same'⟩ := legible_readable_items depth items legible.2
    rw [ReadableItems, rereadItems, readBackItems, same, same']
    exact ⟨⟨readable, readable'⟩, rfl⟩

theorem legible_readable_entries (depth : Nat) (entries : List (String × Value))
    (legible : LegibleEntries depth entries) :
    ReadableEntries depth entries ∧
      ∀ before, rereadEntries before entries = readBackEntries before entries := by
  cases entries with
  | nil =>
    rw [ReadableEntries]
    exact ⟨trivial, fun before => by rw [rereadEntries, readBackEntries]⟩
  | cons entry entries =>
    obtain ⟨key, value⟩ := entry
    rw [LegibleEntries] at legible
    obtain ⟨readable, same⟩ := legible_readable depth value legible.1
    obtain ⟨readable', same'⟩ := legible_readable_entries depth entries legible.2
    rw [ReadableEntries]
    refine ⟨⟨readable, readable'⟩, fun before => ?_⟩
    rw [rereadEntries, readBackEntries, same, same']

end

theorem not_finite_is_null {x : Float} (notFinite : ¬ x.isFinite = true) :
    realChars x = "null".toList := by
  have field : x.toBits.toNat / Nat.pow 2 Decimal.mantissaBits % Nat.pow 2 11 = 2047 :=
    Decidable.not_not.mp fun other => notFinite ((finite_iff_field x).mpr other)
  have special : ∀ negative m e, Decimal.binaryOf x ≠ .finite negative m e := by
    intro negative m e
    simp only [Decimal.binaryOf, field, ↓reduceIte]
    split <;> exact Decimal.Binary.noConfusion
  have noText : Decimal.floatText? x = none := by
    unfold Decimal.floatText?
    split
    · rename_i binary
      exact absurd binary (special _ _ _)
    · rename_i binary
      exact absurd binary (special _ _ _)
    · rfl
  rw [realChars, noText]
  rfl

theorem read_literal (word : List Char) (rest : List Char) :
    dropLiteral? (String.ofList word) (word ++ rest) = some rest := by
  simp [dropLiteral?]

theorem number_is_solid {c : Char} {cs : List Char} {result : Value × List Char}
    (read : readNumber (c :: cs) = some result) : isSpace c = false := by
  rcases number_begins read with rfl | digit
  · decide
  · have notSpace : c ≠ ' ' ∧ c ≠ '\n' ∧ c ≠ '\t' ∧ c ≠ '\r' := by
      refine ⟨?_, ?_, ?_, ?_⟩ <;> rintro rfl <;> exact absurd digit (by decide)
    simp [isSpace, notSpace]

theorem read_number_value {c : Char} {cs after : List Char} {v : Value} (turns depth : Nat)
    (read : readNumber (c :: cs) = some (v, after)) :
    readValue (turns + 1) depth (c :: cs) = some (v, after) := by
  rw [readValue, skip_space_cons cs (number_is_solid read)]
  have begins := number_begins read
  split
  · contradiction
  · rename_i same
    cases same
    split
    case h_7 => exact read
    all_goals exact absurd begins (by decide)

theorem read_value_of_number {cs rest : List Char} {v : Value} (turns depth : Nat)
    (read : readNumber cs = some (v, [])) (ends : EndsNumber rest) :
    readValue (turns + 1) depth (cs ++ rest) = some (v, rest) := by
  cases cs with
  | nil =>
    have nothing : readNumber [] = none := rfl
    rw [nothing] at read
    contradiction
  | cons c cs =>
    have whole := read_number_append (c :: cs) ends
    rw [read] at whole
    exact read_number_value turns depth whole

theorem read_null (turns depth : Nat) (rest : List Char) :
    readValue (turns + 1) depth ("null".toList ++ rest) = some (.null, rest) := by
  have word : "null".toList = 'n' :: ['u', 'l', 'l'] := by decide
  rw [word, List.cons_append, readValue, skip_space_cons _ (by decide)]
  have read := read_literal ['u', 'l', 'l'] rest
  have same : String.ofList ['u', 'l', 'l'] = "ull" := by decide
  simp only
  rw [← same, read]
  rfl

theorem read_bool (turns depth : Nat) (b : Bool) (rest : List Char) :
    readValue (turns + 1) depth ((if b then "true" else "false").toList ++ rest) =
      some (.bool b, rest) := by
  cases b with
  | true =>
    have word : "true".toList = 't' :: ['r', 'u', 'e'] := by decide
    have read := read_literal ['r', 'u', 'e'] rest
    have same : String.ofList ['r', 'u', 'e'] = "rue" := by decide
    rw [if_pos rfl, word, List.cons_append, readValue, skip_space_cons _ (by decide)]
    simp only
    rw [← same, read]
    rfl
  | false =>
    have word : "false".toList = 'f' :: ['a', 'l', 's', 'e'] := by decide
    have read := read_literal ['a', 'l', 's', 'e'] rest
    have same : String.ofList ['a', 'l', 's', 'e'] = "alse" := by decide
    rw [if_neg Bool.false_ne_true, word, List.cons_append, readValue, skip_space_cons _ (by decide)]
    simp only
    rw [← same, read]
    rfl

theorem read_quoted (turns depth : Nat) (text : String) (rest : List Char) :
    readValue (turns + 1) depth (quoted text ++ rest) = some (.text text, rest) := by
  have body := read_escaped_text text.toList rest
  rw [quoted, List.cons_append, List.cons_append, List.append_assoc, readValue,
    skip_space_cons _ (by decide)]
  simp only
  rw [List.singleton_append, body, Option.map_some, String.ofList_toList]

def itemsText (layout : Layout) : List Value → List Char
  | [] => []
  | item :: items => writeChars layout item ++ writeItems layout items

def entriesText (layout : Layout) : List (String × Value) → List Char
  | [] => []
  | (key, value) :: entries =>
    quoted key ++ (layout.colon ++ (writeChars layout value ++ writeEntries layout entries))

theorem write_list (layout : Layout) (item : Value) (items : List Value) :
    writeChars layout (.list (item :: items)) =
      '[' :: (layout.deeper.newline ++ (itemsText layout.deeper (item :: items) ++
        (layout.newline ++ [']']))) := by
  simp only [writeChars, itemsText, List.cons_append, List.append_assoc]

theorem deeper_colon (layout : Layout) : layout.deeper.colon = layout.colon := by
  cases layout <;> rfl

theorem write_object (layout : Layout) (entry : String × Value)
    (entries : List (String × Value)) :
    writeChars layout (.object (entry :: entries)) =
      '{' :: (layout.deeper.newline ++ (entriesText layout.deeper (entry :: entries) ++
        (layout.newline ++ ['}']))) := by
  obtain ⟨key, value⟩ := entry
  simp only [writeChars, entriesText, deeper_colon, List.cons_append, List.append_assoc]

theorem write_items (layout : Layout) (item : Value) (items : List Value) :
    writeItems layout (item :: items) =
      ',' :: (layout.newline ++ itemsText layout (item :: items)) := by
  simp only [writeItems, itemsText, List.cons_append, List.append_assoc]

theorem write_entries (layout : Layout) (entry : String × Value)
    (entries : List (String × Value)) :
    writeEntries layout (entry :: entries) =
      ',' :: (layout.newline ++ entriesText layout (entry :: entries)) := by
  obtain ⟨key, value⟩ := entry
  simp only [writeEntries, entriesText, List.cons_append, List.append_assoc]

theorem value_begins {depth : Nat} {v : Value} (layout : Layout) (readable : Readable depth v) :
    ∃ c cs, writeChars layout v = c :: cs ∧ isSpace c = false ∧ c ≠ ']' := by
  have number {cs : List Char} {v : Value} (read : readNumber cs = some (v, [])) :
      ∃ c rest, cs = c :: rest ∧ isSpace c = false ∧ c ≠ ']' := by
    cases cs with
    | nil =>
      have nothing : readNumber [] = none := rfl
      rw [nothing] at read
      contradiction
    | cons c cs =>
      refine ⟨c, cs, rfl, number_is_solid read, ?_⟩
      rintro rfl
      exact absurd (number_begins read) (by decide)
  cases v with
  | null => exact ⟨'n', ['u', 'l', 'l'], by rw [writeChars]; decide, by decide, by decide⟩
  | bool b =>
    cases b with
    | true => exact ⟨'t', ['r', 'u', 'e'], by rw [writeChars]; decide, by decide, by decide⟩
    | false => exact ⟨'f', ['a', 'l', 's', 'e'], by rw [writeChars]; decide, by decide, by decide⟩
  | int n =>
    rw [writeChars]
    exact number (read_int (by rwa [Readable] at readable))
  | real x =>
    rw [writeChars]
    by_cases finite : x.isFinite = true
    · exact number (by rw [Readable] at readable; exact readable finite)
    · exact ⟨'n', ['u', 'l', 'l'], by rw [not_finite_is_null finite]; decide, by decide, by decide⟩
  | text s => exact ⟨'"', _, by rw [writeChars, quoted, List.cons_append], by decide, by decide⟩
  | list items =>
    cases items with
    | nil => exact ⟨'[', [']'], by rw [writeChars], by decide, by decide⟩
    | cons item items => exact ⟨'[', _, write_list layout item items, by decide, by decide⟩
  | object entries =>
    cases entries with
    | nil => exact ⟨'{', ['}'], by rw [writeChars], by decide, by decide⟩
    | cons entry entries => exact ⟨'{', _, write_object layout entry entries, by decide, by decide⟩

theorem read_list (turns depth : Nat) {cs : List Char}
    (notClosed : ∀ after, skipSpace cs ≠ ']' :: after) :
    readValue (turns + 1) (depth + 1) ('[' :: cs) =
      (readItems turns depth cs).map fun (items, rest) => (.list items, rest) := by
  rw [readValue, skip_space_cons cs (by decide)]
  simp only
  rw [read_items_skip]

theorem read_object (turns depth : Nat) {cs : List Char}
    (notClosed : ∀ after, skipSpace cs ≠ '}' :: after) :
    readValue (turns + 1) (depth + 1) ('{' :: cs) =
      (readEntries turns depth [] cs).map fun (entries, rest) => (.object entries, rest) := by
  rw [readValue, skip_space_cons cs (by decide)]
  simp only
  rw [read_entries_skip]

theorem read_list_of_items {turns depth : Nat} {item : Value} {items found : List Value}
    {rest : List Char} (layout : Layout) (readable : Readable depth item)
    (read : readItems turns depth (itemsText layout.deeper (item :: items) ++
      (layout.newline ++ ']' :: rest)) = some (found, rest)) :
    readValue (turns + 1) (depth + 1) (writeChars layout (.list (item :: items)) ++ rest) =
      some (.list found, rest) := by
  have notClosed (after : List Char) : skipSpace (layout.deeper.newline ++ (itemsText layout.deeper
      (item :: items) ++ (layout.newline ++ ']' :: rest))) ≠ ']' :: after := by
    obtain ⟨c, cs, text, solid, noCloser⟩ := value_begins layout.deeper readable
    rw [skip_newline, itemsText, text, List.append_assoc, List.cons_append,
      skip_space_cons _ solid]
    exact fun same => noCloser (List.cons.inj same).1
  rw [write_list]
  simp only [List.cons_append, List.append_assoc, List.nil_append]
  rw [read_list turns depth notClosed, ← read_items_skip, skip_newline, read_items_skip, read]
  rfl

theorem read_object_of_entries {turns depth : Nat} {entry : String × Value}
    {entries found : List (String × Value)} {rest : List Char} (layout : Layout)
    (read : readEntries turns depth [] (entriesText layout.deeper (entry :: entries) ++
      (layout.newline ++ '}' :: rest)) = some (found, rest)) :
    readValue (turns + 1) (depth + 1) (writeChars layout (.object (entry :: entries)) ++ rest) =
      some (.object found, rest) := by
  have notClosed (after : List Char) : skipSpace (layout.deeper.newline ++ (entriesText
      layout.deeper (entry :: entries) ++ (layout.newline ++ '}' :: rest))) ≠ '}' :: after := by
    obtain ⟨key, value⟩ := entry
    rw [skip_newline, entriesText, quoted, List.append_assoc, List.cons_append,
      List.cons_append, skip_space_cons _ (by decide)]
    exact fun same => absurd (List.cons.inj same).1 (by decide)
  rw [write_object]
  simp only [List.cons_append, List.append_assoc, List.nil_append]
  rw [read_object turns depth notClosed, ← read_entries_skip, skip_newline, read_entries_skip, read]
  rfl

theorem read_behind_colon {turns depth : Nat} (layout : Layout) {text more : List Char} {v : Value}
    (read : readValue turns depth (text ++ more) = some (v, more)) :
    ∃ cs, skipSpace (layout.colon ++ (text ++ more)) = ':' :: cs ∧
      readValue turns depth cs = some (v, more) := by
  cases layout with
  | none => exact ⟨_, rfl, read⟩
  | some d =>
    have blank : skipSpace (' ' :: (text ++ more)) = skipSpace (text ++ more) := rfl
    refine ⟨' ' :: (text ++ more), rfl, ?_⟩
    rw [← read_value_skip, blank, read_value_skip, read]

theorem read_entry (turns depth : Nat) (before : List (String × Value)) (layout : Layout)
    (key : String) {text more : List Char} {v : Value}
    (read : readValue turns depth (text ++ more) = some (v, more)) :
    readEntries (turns + 1) depth before (quoted key ++ (layout.colon ++ (text ++ more))) =
      match skipSpace more with
      | '}' :: rest => some (insertEntry key v before, rest)
      | ',' :: rest => readEntries turns depth (insertEntry key v before) rest
      | _ => none := by
  have body := read_escaped_text key.toList (layout.colon ++ (text ++ more))
  obtain ⟨cs, colon, read⟩ := read_behind_colon layout read
  rw [quoted, List.cons_append, List.cons_append, List.append_assoc, readEntries,
    skip_space_cons _ (by decide)]
  simp only [List.singleton_append, body, colon, read, Option.bind_eq_bind, Option.bind_some,
    String.ofList_toList]
  rfl

theorem ends_of_head {c : Char} {cs : List Char} (other : ¬ InNumber c) : EndsNumber (c :: cs) := by
  intro d first
  cases first
  exact other

theorem ends_of_newline {c : Char} {cs : List Char} (layout : Layout) (other : ¬ InNumber c) :
    EndsNumber (layout.newline ++ c :: cs) := by
  cases layout with
  | none => exact ends_of_head other
  | some depth => exact ends_of_head (by simp [InNumber])

mutual

theorem read_again_value (turns depth : Nat) (v : Value) (layout : Layout) (rest : List Char)
    (readable : Readable depth v) (enough : (writeChars layout v).length < turns)
    (ends : EndsNumber rest) :
    readValue turns depth (writeChars layout v ++ rest) = some (reread v, rest) := by
  obtain ⟨turns, rfl⟩ : ∃ t, turns = t + 1 := ⟨turns - 1, by omega⟩
  cases v with
  | null =>
    rw [writeChars, reread]
    exact read_null turns depth rest
  | bool b =>
    rw [writeChars, reread]
    exact read_bool turns depth b rest
  | text s =>
    rw [writeChars, reread]
    exact read_quoted turns depth s rest
  | int n =>
    rw [Readable] at readable
    rw [writeChars, reread]
    exact read_value_of_number turns depth (read_int readable) ends
  | real x =>
    rw [Readable] at readable
    rw [writeChars, reread]
    by_cases finite : x.isFinite = true
    · rw [if_pos finite]
      exact read_value_of_number turns depth (readable finite) ends
    · rw [if_neg finite, not_finite_is_null finite]
      exact read_null turns depth rest
  | list items =>
    rw [Readable] at readable
    obtain ⟨deep, readable⟩ := readable
    obtain ⟨depth, rfl⟩ : ∃ d, depth = d + 1 := ⟨depth - 1, by omega⟩
    rw [reread]
    cases items with
    | nil =>
      rw [writeChars, rereadItems]
      rfl
    | cons item items =>
      rw [write_list] at enough
      simp only [List.length_cons, List.length_append, List.length_nil] at enough
      exact read_list_of_items layout readable.1 (read_again_items turns depth (item :: items)
        layout.deeper (layout.newline ++ ']' :: rest) rest (List.cons_ne_nil _ _) readable
        (by omega) (ends_of_newline layout (by simp [InNumber])) (skip_to_closer layout (by decide)))
  | object entries =>
    rw [Readable] at readable
    obtain ⟨deep, readable⟩ := readable
    obtain ⟨depth, rfl⟩ : ∃ d, depth = d + 1 := ⟨depth - 1, by omega⟩
    rw [reread]
    cases entries with
    | nil =>
      rw [writeChars, rereadEntries]
      rfl
    | cons entry entries =>
      rw [write_object] at enough
      simp only [List.length_cons, List.length_append, List.length_nil] at enough
      exact read_object_of_entries layout (read_again_entries turns depth (entry :: entries) []
        layout.deeper (layout.newline ++ '}' :: rest) rest (List.cons_ne_nil _ _) readable
        (by omega) (ends_of_newline layout (by simp [InNumber])) (skip_to_closer layout (by decide)))

theorem read_again_items (turns depth : Nat) (items : List Value) (layout : Layout)
    (closing rest : List Char) (notEmpty : items ≠ []) (readable : ReadableItems depth items)
    (enough : (itemsText layout items).length + 1 < turns) (ends : EndsNumber closing)
    (closes : skipSpace closing = ']' :: rest) :
    readItems turns depth (itemsText layout items ++ closing) =
      some (rereadItems items, rest) := by
  obtain ⟨turns, rfl⟩ : ∃ t, turns = t + 1 := ⟨turns - 1, by omega⟩
  cases items with
  | nil => exact absurd rfl notEmpty
  | cons item items =>
    rw [ReadableItems] at readable
    rw [itemsText, List.length_append] at enough
    rw [itemsText, List.append_assoc, readItems, rereadItems]
    cases items with
    | nil =>
      have read := read_again_value turns depth item layout closing readable.1 (by omega) ends
      rw [writeItems, List.nil_append]
      simp only [read, closes, Option.bind_eq_bind, Option.bind_some]
      rfl
    | cons next items =>
      rw [write_items, List.length_cons, List.length_append] at enough
      have goesOn : skipSpace (writeItems layout (next :: items) ++ closing) =
          ',' :: (layout.newline ++ (itemsText layout (next :: items) ++ closing)) := by
        rw [write_items, List.cons_append, List.append_assoc, skip_space_cons _ (by decide)]
      have read := read_again_value turns depth item layout
        (writeItems layout (next :: items) ++ closing) readable.1 (by omega)
        (by rw [write_items]; exact ends_of_head (by simp [InNumber]))
      have others := read_again_items turns depth (next :: items) layout closing rest
        (List.cons_ne_nil _ _) readable.2 (by omega) ends closes
      simp only [read, goesOn, Option.bind_eq_bind, Option.bind_some]
      rw [← read_items_skip, skip_newline, read_items_skip, others]
      rfl

theorem read_again_entries (turns depth : Nat) (entries before : List (String × Value))
    (layout : Layout) (closing rest : List Char) (notEmpty : entries ≠ [])
    (readable : ReadableEntries depth entries)
    (enough : (entriesText layout entries).length + 1 < turns) (ends : EndsNumber closing)
    (closes : skipSpace closing = '}' :: rest) :
    readEntries turns depth before (entriesText layout entries ++ closing) =
      some (rereadEntries before entries, rest) := by
  obtain ⟨turns, rfl⟩ : ∃ t, turns = t + 1 := ⟨turns - 1, by omega⟩
  cases entries with
  | nil => exact absurd rfl notEmpty
  | cons entry entries =>
    obtain ⟨key, value⟩ := entry
    rw [ReadableEntries] at readable
    rw [entriesText] at enough ⊢
    simp only [List.length_append] at enough
    rw [rereadEntries]
    cases entries with
    | nil =>
      have read := read_again_value turns depth value layout closing readable.1 (by omega) ends
      rw [writeEntries, List.append_nil, List.append_assoc, List.append_assoc,
        read_entry turns depth before layout key read, closes, rereadEntries]
      rfl
    | cons next entries =>
      rw [write_entries, List.length_cons, List.length_append] at enough
      have goesOn : skipSpace (writeEntries layout (next :: entries) ++ closing) =
          ',' :: (layout.newline ++ (entriesText layout (next :: entries) ++ closing)) := by
        rw [write_entries, List.cons_append, List.append_assoc, skip_space_cons _ (by decide)]
      have read := read_again_value turns depth value layout
        (writeEntries layout (next :: entries) ++ closing) readable.1 (by omega)
        (by rw [write_entries]; exact ends_of_head (by simp [InNumber]))
      have others := read_again_entries turns depth (next :: entries)
        (insertEntry key (reread value) before) layout closing rest (List.cons_ne_nil _ _)
        readable.2 (by omega) ends closes
      simp only [List.append_assoc]
      rw [read_entry turns depth before layout key read, goesOn]
      simp only
      rw [← read_entries_skip, skip_newline, read_entries_skip, others]

end

theorem ends_with_nothing : EndsNumber [] := by
  intro c first
  cases first

theorem read_again (v : Value) (layout : Layout) (readable : Readable depthLimit v) :
    readChars (writeChars layout v) = some (reread v) := by
  have read := read_again_value ((writeChars layout v).length + 1) depthLimit v layout [] readable
    (Nat.lt_succ_self _) ends_with_nothing
  rw [List.append_nil] at read
  rw [readChars, read]
  rfl

theorem read_written_value (turns depth : Nat) (v : Value) (layout : Layout) (rest : List Char)
    (legible : Legible depth v) (enough : (writeChars layout v).length < turns)
    (ends : EndsNumber rest) :
    readValue turns depth (writeChars layout v ++ rest) = some (readBack v, rest) := by
  obtain ⟨readable, same⟩ := legible_readable depth v legible
  rw [← same]
  exact read_again_value turns depth v layout rest readable enough ends

theorem read_written (v : Value) (layout : Layout) (legible : Legible depthLimit v) :
    readChars (writeChars layout v) = some (readBack v) := by
  obtain ⟨readable, same⟩ := legible_readable depthLimit v legible
  rw [← same]
  exact read_again v layout readable

theorem legible_entries_iff (depth : Nat) (entries : List (String × Value)) :
    LegibleEntries depth entries ↔ ∀ key v, (key, v) ∈ entries → Legible depth v := by
  induction entries with
  | nil => simp [LegibleEntries]
  | cons entry rest ih =>
    obtain ⟨key, v⟩ := entry
    rw [LegibleEntries, ih]
    constructor
    · rintro ⟨first, others⟩ key' v' member
      rcases List.mem_cons.mp member with same | member
      · exact (Prod.mk.inj same).2 ▸ first
      · exact others key' v' member
    · intro all
      exact ⟨all key v List.mem_cons_self,
        fun key v member => all key v (List.mem_cons_of_mem _ member)⟩

theorem read_back_ascending (entries : List (String × Value)) {before : List (String × Value)}
    (sorted : Ascending before) : Ascending (readBackEntries before entries) := by
  induction entries generalizing before with
  | nil =>
    rw [readBackEntries]
    exact sorted
  | cons entry rest ih =>
    obtain ⟨key, v⟩ := entry
    rw [readBackEntries]
    exact ih (insert_entry_ascending key (readBack v) before sorted)

theorem lookup_read_back {entries : List (String × Value)} (sorted : Ascending entries)
    (before : List (String × Value)) (key : String) :
    (readBackEntries before entries).lookup key =
      ((entries.lookup key).map readBack).or (before.lookup key) := by
  induction entries generalizing before with
  | nil =>
    rw [readBackEntries]
    rfl
  | cons entry rest ih =>
    obtain ⟨key', v⟩ := entry
    rw [readBackEntries, ih (List.pairwise_cons.mp sorted).2, lookup_insert_entry, lookup_of_cons]
    by_cases same : key = key'
    · rw [if_pos same, if_pos same, same, first_name_once sorted]
      rfl
    · rw [if_neg same, if_neg same]

end Authorship.Json
