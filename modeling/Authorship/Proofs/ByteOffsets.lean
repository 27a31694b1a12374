import Authorship.Proofs.Totals
import Mathlib.Data.List.Basic

/-
Texts by byte offsets. An offset cuts a text in two only where a character begins or the text ends;
the bytes of a character beyond ASCII are none of ASCII's, so that a scan that looks for ASCII bytes
alone may stop inside such a character but never goes on from there.
-/
namespace Authorship.Text

theorem utf8_length_cons (c : Char) (cs : List Char) :
    utf8Length (c :: cs) = c.utf8Size + utf8Length cs := rfl

theorem utf8_length_append (xs ys : List Char) :
    utf8Length (xs ++ ys) = utf8Length xs + utf8Length ys := by
  rw [utf8Length, List.map_append, sum_of_eq, List.sum_append]
  rfl

theorem utf8_length_reverse (cs : List Char) : utf8Length cs.reverse = utf8Length cs := by
  induction cs with
  | nil => rfl
  | cons c cs ih =>
    rw [List.reverse_cons, utf8_length_append, ih, utf8_length_cons, utf8_length_cons]
    exact Nat.add_comm _ _

theorem utf8_length_take_le (cs : List Char) {m n : Nat} (le : m ≤ n) :
    utf8Length (cs.take m) ≤ utf8Length (cs.take n) := by
  obtain ⟨more, rfl⟩ := Nat.exists_eq_add_of_le le
  rw [List.take_add, utf8_length_append]
  omega

def splitBytes? : Nat → List Char → Option (List Char × List Char)
  | 0, cs => some ([], cs)
  | _ + 1, [] => none
  | n + 1, c :: cs =>
    if c.utf8Size ≤ n + 1 then
      (splitBytes? (n + 1 - c.utf8Size) cs).map fun parts => (c :: parts.1, parts.2)
    else none

/-- The text from one offset to another, if they are in order and neither is inside a character or
beyond the end. -/
def slice? (first last : Nat) (cs : List Char) : Option (List Char) :=
  if last < first then none
  else (splitBytes? first cs).bind fun parts =>
    (splitBytes? (last - first) parts.2).map (·.1)

theorem split_bytes_iff (n : Nat) (cs xs ys : List Char) :
    splitBytes? n cs = some (xs, ys) ↔ cs = xs ++ ys ∧ utf8Length xs = n := by
  fun_induction splitBytes? n cs generalizing xs with
  | case1 cs =>
    constructor
    · intro same
      obtain ⟨rfl, rfl⟩ := Prod.mk.inj (Option.some.inj same)
      exact ⟨rfl, rfl⟩
    · rintro ⟨rfl, none⟩
      cases xs with
      | nil => rfl
      | cons x xs =>
        rw [utf8_length_cons] at none
        exact absurd x.utf8Size_pos (by omega)
  | case2 n =>
    refine iff_of_false (by simp) fun ⟨text, length⟩ => ?_
    obtain ⟨rfl, rfl⟩ := List.append_eq_nil_iff.mp text.symm
    cases length
  | case3 n c cs fits ih =>
    constructor
    · intro found
      obtain ⟨⟨xs, _⟩, rest, same⟩ := Option.map_eq_some_iff.mp found
      obtain ⟨rfl, rfl⟩ := Prod.mk.inj same
      obtain ⟨rfl, length⟩ := (ih xs).mp rest
      refine ⟨rfl, ?_⟩
      dsimp only at length ⊢
      rw [utf8_length_cons]
      omega
    · rintro ⟨text, length⟩
      cases xs with
      | nil => cases length
      | cons x xs =>
        obtain ⟨rfl, rfl⟩ := List.cons_eq_cons.mp text
        rw [utf8_length_cons] at length
        rw [(ih xs).mpr ⟨rfl, by omega⟩]
        rfl
  | case4 n c cs wide =>
    refine iff_of_false (by simp) fun ⟨text, length⟩ => ?_
    cases xs with
    | nil => cases length
    | cons x xs =>
      obtain ⟨rfl, rfl⟩ := List.cons_eq_cons.mp text
      rw [utf8_length_cons] at length
      omega

theorem slice_iff (first last : Nat) (cs part : List Char) :
    slice? first last cs = some part ↔ ∃ before after, cs = before ++ (part ++ after) ∧
      utf8Length before = first ∧ first + utf8Length part = last := by
  rw [slice?]
  split
  · refine iff_of_false (by simp) ?_
    rintro ⟨before, after, rfl, rfl, rfl⟩
    omega
  · constructor
    · intro found
      obtain ⟨⟨before, rest⟩, start, found⟩ := Option.bind_eq_some_iff.mp found
      obtain ⟨⟨_, after⟩, stop, rfl⟩ := Option.map_eq_some_iff.mp found
      obtain ⟨rfl, place⟩ := (split_bytes_iff ..).mp start
      obtain ⟨rfl, length⟩ := (split_bytes_iff ..).mp stop
      exact ⟨before, after, rfl, place, by dsimp only; omega⟩
    · rintro ⟨before, after, rfl, place, length⟩
      have start := (split_bytes_iff first (before ++ (part ++ after)) before (part ++ after)).mpr
        ⟨rfl, place⟩
      have stop := (split_bytes_iff (last - first) (part ++ after) part after).mpr
        ⟨rfl, by omega⟩
      rw [start, Option.bind_some, stop]
      rfl

def utf8 (cs : List Char) : List UInt8 := cs.flatMap String.utf8EncodeChar

theorem utf8_cons (c : Char) (cs : List Char) :
    utf8 (c :: cs) = String.utf8EncodeChar c ++ utf8 cs := List.flatMap_cons

theorem utf8_append (xs ys : List Char) : utf8 (xs ++ ys) = utf8 xs ++ utf8 ys :=
  List.flatMap_append

theorem length_utf8 (cs : List Char) : (utf8 cs).length = utf8Length cs := by
  induction cs with
  | nil => rfl
  | cons c cs ih =>
    rw [utf8_cons, List.length_append, String.length_utf8EncodeChar, ih, utf8_length_cons]

def byteOf (c : Char) : UInt8 := UInt8.ofNat c.toNat

def onByte (p : Char → Bool) (b : UInt8) : Bool := b.toNat < 128 && p (Char.ofNat b.toNat)

/-- A class of characters that holds nothing beyond ASCII. -/
def AsciiOnly (p : Char → Bool) : Prop := ∀ c, p c = true → c.toNat < 128

theorem ascii_iff (c : Char) : c.toNat < 128 ↔ c.utf8Size = 1 := by
  rw [Char.utf8Size_eq_one_iff, UInt32.le_iff_toNat_le]
  exact Nat.lt_succ_iff

theorem ascii_encoded {c : Char} (ascii : c.toNat < 128) :
    String.utf8EncodeChar c = [byteOf c] := by
  have small : c.val.toNat ≤ 127 := Nat.le_of_lt_succ ascii
  simp only [String.utf8EncodeChar, if_pos small]
  rfl

theorem byte_of_ascii {c : Char} (ascii : c.toNat < 128) : (byteOf c).toNat = c.toNat :=
  UInt8.toNat_ofNat_of_lt' (Nat.lt_trans ascii (by decide))

theorem on_byte_ascii (p : Char → Bool) {c : Char} (ascii : c.toNat < 128) :
    onByte p (byteOf c) = p c := by
  rw [onByte, byte_of_ascii ascii, Char.ofNat_toNat]
  simp [ascii]

theorem wide_encoded {c : Char} (wide : ¬c.toNat < 128) :
    ∀ b ∈ String.utf8EncodeChar c, 128 ≤ b.toNat := by
  have large : ¬c.val.toNat ≤ 127 := fun small => wide (Nat.lt_succ_of_le small)
  have marked (n k : Nat) (high : 128 ≤ k) (low : n + k < 256) :
      128 ≤ (UInt8.ofNat (n + k)).toNat := by
    rw [UInt8.toNat_ofNat_of_lt' low]
    omega
  simp only [String.utf8EncodeChar, if_neg large]
  split
  · simp only [List.forall_mem_cons]
    exact ⟨marked _ _ (by decide) (by omega), marked _ _ (by decide) (by omega),
      List.forall_mem_nil _⟩
  · split
    · simp only [List.forall_mem_cons]
      exact ⟨marked _ _ (by decide) (by omega), marked _ _ (by decide) (by omega),
        marked _ _ (by decide) (by omega), List.forall_mem_nil _⟩
    · simp only [List.forall_mem_cons]
      exact ⟨marked _ _ (by decide) (by omega), marked _ _ (by decide) (by omega),
        marked _ _ (by decide) (by omega), marked _ _ (by decide) (by omega),
        List.forall_mem_nil _⟩

theorem on_byte_wide (p : Char → Bool) {b : UInt8} (wide : 128 ≤ b.toNat) : onByte p b = false := by
  simp [onByte, Nat.not_lt.mpr wide]

theorem wide_begins {c : Char} (wide : ¬c.toNat < 128) (rest : List UInt8) :
    ∃ b bs, String.utf8EncodeChar c ++ rest = b :: bs ∧ 128 ≤ b.toNat := by
  have nonempty : 0 < (String.utf8EncodeChar c).length := by
    rw [String.length_utf8EncodeChar]
    exact c.utf8Size_pos
  obtain ⟨b, bs, bytes⟩ := List.exists_cons_of_length_pos nonempty
  exact ⟨b, bs ++ rest, by rw [bytes, List.cons_append],
    wide_encoded wide b (bytes ▸ List.mem_cons_self)⟩

theorem wide_fails {p : Char → Bool} (ascii : AsciiOnly p) {c : Char} (wide : ¬c.toNat < 128) :
    p c = false := Bool.eq_false_iff.mpr fun holds => wide (ascii c holds)

theorem on_byte_eq {a : Char} (ascii : a.toNat < 128) (b : UInt8) :
    onByte (· == a) b = true ↔ b = byteOf a := by
  constructor
  · intro equal
    simp only [onByte, Bool.and_eq_true, decide_eq_true_eq, beq_iff_eq] at equal
    obtain ⟨small, rfl⟩ := equal
    have number : ∀ n < 128, (Char.ofNat n).toNat = n := by decide
    rw [byteOf, number b.toNat small, UInt8.ofNat_toNat]
  · rintro rfl
    rw [on_byte_ascii _ ascii, beq_self_eq_true]

theorem bytes_while {p : Char → Bool} (ascii : AsciiOnly p) (cs : List Char) :
    (utf8 cs).takeWhile (onByte p) = utf8 (cs.takeWhile p) := by
  induction cs with
  | nil => rfl
  | cons c cs ih =>
    rw [utf8_cons]
    by_cases small : c.toNat < 128
    · rw [ascii_encoded small, List.singleton_append, List.takeWhile_cons, List.takeWhile_cons,
        on_byte_ascii p small, ih]
      split
      · rw [utf8_cons, ascii_encoded small, List.singleton_append]
      · rfl
    · obtain ⟨b, bs, bytes, wide⟩ := wide_begins small (utf8 cs)
      rw [bytes, List.takeWhile_cons_of_neg (by simp [on_byte_wide p wide]),
        List.takeWhile_cons_of_neg (by simp [wide_fails ascii small])]
      rfl

/-- What is left of a text from an offset on. Inside a character it is that character with all
that follows. -/
inductive Left (text : List Char) (offset : Nat) : List Char → Prop where
  | begins (passed : List Char) {rest : List Char} (text_eq : text = passed ++ rest)
      (place : utf8Length passed = offset) : Left text offset rest
  | inside (passed : List Char) {c : Char} {rest : List Char} (text_eq : text = passed ++ c :: rest)
      (after : utf8Length passed < offset) (before : offset < utf8Length passed + c.utf8Size) :
      Left text offset (c :: rest)

section

variable {text rest : List Char} {offset : Nat}

theorem drop_passed (passed rest : List Char) :
    (utf8 (passed ++ rest)).drop (utf8Length passed) = utf8 rest := by
  rw [utf8_append, ← length_utf8, List.drop_left]

/-- Inside a character stands a byte that is none of ASCII's. -/
theorem byte_inside {passed : List Char} {c : Char} (text_eq : text = passed ++ c :: rest)
    (after : utf8Length passed < offset) (before : offset < utf8Length passed + c.utf8Size) :
    ∃ b bs, (utf8 text).drop offset = b :: bs ∧ 128 ≤ b.toNat := by
  obtain ⟨more, rfl⟩ := Nat.exists_eq_add_of_lt after
  have wide : ¬c.toNat < 128 := by
    intro ascii
    rw [ascii_iff] at ascii
    omega
  have within : more + 1 < (String.utf8EncodeChar c).length := by
    rw [String.length_utf8EncodeChar]
    omega
  have rest : (utf8 text).drop (utf8Length passed + more + 1) =
      (String.utf8EncodeChar c ++ utf8 rest).drop (more + 1) := by
    rw [Nat.add_assoc, ← List.drop_drop, text_eq, drop_passed, utf8_cons]
  rw [rest, List.drop_append_of_le_length (Nat.le_of_lt within), List.drop_eq_getElem_cons within]
  exact ⟨_, _, rfl, wide_encoded wide _ (List.getElem_mem within)⟩

/-- The byte at an offset is of a class of ASCII exactly if the character that begins there is. -/
theorem Left.any_byte {p : Char → Bool} (ascii : AsciiOnly p) (left : Left text offset rest) :
    (utf8 text)[offset]?.any (onByte p) = rest.head?.any p := by
  rw [← List.head?_drop]
  cases left with
  | begins passed text_eq place =>
    rw [text_eq, ← place, drop_passed]
    cases rest with
    | nil => rfl
    | cons c cs =>
      rw [utf8_cons]
      by_cases small : c.toNat < 128
      · rw [ascii_encoded small]
        exact on_byte_ascii p small
      · obtain ⟨b, bs, bytes, wide⟩ := wide_begins small (utf8 cs)
        rw [bytes]
        exact (on_byte_wide p wide).trans (wide_fails ascii small).symm
  | @inside passed c rest text_eq after before =>
    obtain ⟨b, bs, bytes, wide⟩ := byte_inside text_eq after before
    have large : ¬c.toNat < 128 := by
      rw [ascii_iff]
      omega
    rw [bytes]
    exact (on_byte_wide p wide).trans (wide_fails ascii large).symm

theorem Left.byte_iff (left : Left text offset rest) {a : Char} (ascii : a.toNat < 128) :
    (utf8 text)[offset]? = some (byteOf a) ↔ rest.head? = some a := by
  have same := left.any_byte (p := (· == a)) fun c equal => (beq_iff_eq.mp equal) ▸ ascii
  rw [Bool.eq_iff_iff, Option.any_eq_true, Option.any_eq_true] at same
  simp only [on_byte_eq ascii, beq_iff_eq] at same
  simpa using same

theorem Left.length_le (left : Left text offset rest) : rest.length ≤ text.length := by
  cases left with
  | begins passed text_eq place => simp [text_eq]
  | inside passed text_eq after before => simp [text_eq]

theorem Left.past (left : Left text offset rest) (before : List Char) :
    Left (before ++ text) (utf8Length before + offset) rest := by
  cases left with
  | begins passed text_eq place =>
    refine .begins (before ++ passed) (by rw [text_eq, List.append_assoc]) ?_
    rw [utf8_length_append, place]
  | @inside passed c rest text_eq after within =>
    refine .inside (before ++ passed) (by rw [text_eq, List.append_assoc]) ?_ ?_
    · rw [utf8_length_append]
      omega
    · rw [utf8_length_append]
      omega

theorem Left.cons {a : Char} {cs : List Char} (left : Left text offset (a :: cs))
    (ascii : a.toNat < 128) :
    ∃ passed, text = passed ++ a :: cs ∧ utf8Length passed = offset := by
  cases left with
  | begins passed text_eq place => exact ⟨_, text_eq, place⟩
  | inside passed text_eq after before =>
    rw [(ascii_iff a).mp ascii] at before
    omega

def skipBytes (p : Char → Bool) (bytes : List UInt8) (offset : Nat) : Nat :=
  offset + ((bytes.drop offset).takeWhile (onByte p)).length

theorem skip_passed {p : Char → Bool} (ascii : AsciiOnly p) (passed rest : List Char) :
    skipBytes p (utf8 (passed ++ rest)) (utf8Length passed) =
      utf8Length (passed ++ rest.takeWhile p) := by
  rw [skipBytes, drop_passed, bytes_while ascii, length_utf8, utf8_length_append]

theorem Left.skip {p : Char → Bool} (ascii : AsciiOnly p) (left : Left text offset rest) :
    Left text (skipBytes p (utf8 text) offset) (rest.dropWhile p) := by
  cases left with
  | begins passed text_eq place =>
    refine .begins (passed ++ rest.takeWhile p) ?_ ?_
    · rw [List.append_assoc, List.takeWhile_append_dropWhile]
      exact text_eq
    · rw [← place, text_eq, skip_passed ascii]
  | @inside passed c rest text_eq after before =>
    obtain ⟨b, bs, bytes, wide⟩ := byte_inside text_eq after before
    have stays : skipBytes p (utf8 text) offset = offset := by
      rw [skipBytes, bytes, List.takeWhile_cons_of_neg (by simp [on_byte_wide p wide])]
      rfl
    have large : ¬c.toNat < 128 := by
      rw [ascii_iff]
      omega
    rw [stays, List.dropWhile_cons_of_neg (by simp [wide_fails ascii large])]
    exact .inside passed text_eq after before

end

end Authorship.Text
