import Authorship.Json.Reader
import Authorship.Json.Writer

/-
The text of a number, read. Its reader stops where the number does, so what follows makes no
difference as long as it does not go on with the number.
-/
namespace Authorship.Json

def InNumber (c : Char) : Prop :=
  c.isDigit = true ∨ c = '.' ∨ c = 'e' ∨ c = 'E' ∨ c = '+' ∨ c = '-'

def EndsNumber (rest : List Char) : Prop := ∀ c ∈ rest.head?, ¬ InNumber c

variable {rest : List Char}

theorem digits_ahead_append (cs : List Char) (ends : EndsNumber rest) :
    digitsAhead (cs ++ rest) = ((digitsAhead cs).1, (digitsAhead cs).2 ++ rest) := by
  induction cs with
  | nil =>
    cases rest with
    | nil => rfl
    | cons c cs =>
      have noDigit : ¬ c.isDigit = true := fun digit => ends c rfl (Or.inl digit)
      simp [digitsAhead, noDigit]
  | cons c cs ih =>
    by_cases digit : c.isDigit = true
    · simp_all [digitsAhead]
    · simp [digitsAhead, digit]

theorem head_append (cs : List Char) {c : Char} (first : (cs ++ rest).head? = some c) :
    cs.head? = some c ∨ cs = [] ∧ rest.head? = some c := by
  cases cs with
  | nil => exact Or.inr ⟨rfl, first⟩
  | cons d cs => exact Or.inl first

theorem no_places {cs : List Char} (noPoint : cs.head? ≠ some '.') :
    readPlaces cs = some (none, cs) := by
  unfold readPlaces
  split
  · exact absurd rfl noPoint
  · rfl

theorem read_places_append (cs : List Char) (ends : EndsNumber rest) :
    readPlaces (cs ++ rest) =
      (readPlaces cs).map fun (places, after) => (places, after ++ rest) := by
  by_cases point : cs.head? = some '.'
  · obtain ⟨cs, rfl⟩ := List.head?_eq_some_iff.mp point
    simp only [List.cons_append, readPlaces, digits_ahead_append cs ends]
    rcases digitsAhead cs with ⟨digits, after⟩
    cases digits <;> rfl
  · have noPoint : (cs ++ rest).head? ≠ some '.' := by
      intro first
      rcases head_append cs first with h | ⟨-, h⟩
      · exact point h
      · exact ends '.' h (by simp [InNumber])
    rw [no_places point, no_places noPoint]
    rfl

theorem read_exponent_digits_append (negative : Bool) (cs : List Char) (ends : EndsNumber rest) :
    readExponentDigits negative (cs ++ rest) =
      (readExponentDigits negative cs).map fun (exponent, after) => (exponent, after ++ rest) := by
  simp only [readExponentDigits, digits_ahead_append cs ends]
  rcases digitsAhead cs with ⟨digits, after⟩
  cases digits <;> rfl

def exponentSign : List Char → Bool × List Char
  | '-' :: cs => (true, cs)
  | '+' :: cs => (false, cs)
  | cs => (false, cs)

theorem exponent_sign_append (cs : List Char) (ends : EndsNumber rest) :
    exponentSign (cs ++ rest) = ((exponentSign cs).1, (exponentSign cs).2 ++ rest) := by
  cases cs with
  | nil =>
    rw [List.nil_append]
    unfold exponentSign
    split
    · exact absurd (by simp [InNumber]) (ends '-' rfl)
    · exact absurd (by simp [InNumber]) (ends '+' rfl)
    · rfl
  | cons c cs =>
    rw [List.cons_append]
    unfold exponentSign
    split <;> simp_all

theorem read_exponent_cons (c : Char) (cs : List Char) :
    readExponent (c :: cs) =
      if c = 'e' ∨ c = 'E' then readExponentDigits (exponentSign cs).1 (exponentSign cs).2
      else some (none, c :: cs) := by
  simp only [readExponent, Bool.or_eq_true, decide_eq_true_eq, exponentSign]
  split
  · split <;> simp_all
  · rfl

theorem read_exponent_append (cs : List Char) (ends : EndsNumber rest) :
    readExponent (cs ++ rest) =
      (readExponent cs).map fun (exponent, after) => (exponent, after ++ rest) := by
  cases cs with
  | nil =>
    cases rest with
    | nil => rfl
    | cons c cs =>
      have noExponent : ¬ (c = 'e' ∨ c = 'E') := by
        intro sign
        exact ends c rfl (by rcases sign with h | h <;> simp [InNumber, h])
      rw [List.nil_append, read_exponent_cons, if_neg noExponent]
      rfl
  | cons c cs =>
    rw [List.cons_append, read_exponent_cons, read_exponent_cons]
    by_cases sign : c = 'e' ∨ c = 'E'
    · rw [if_pos sign, if_pos sign, exponent_sign_append cs ends,
        read_exponent_digits_append _ _ ends]
    · rw [if_neg sign, if_neg sign]
      rfl

def numberSign : List Char → Bool × List Char
  | '-' :: cs => (true, cs)
  | cs => (false, cs)

theorem unsigned_of_no_minus {cs : List Char} (noMinus : cs.head? ≠ some '-') :
    numberSign cs = (false, cs) := by
  unfold numberSign
  split
  · exact absurd rfl noMinus
  · rfl

theorem number_sign_append (cs : List Char) (ends : EndsNumber rest) :
    numberSign (cs ++ rest) = ((numberSign cs).1, (numberSign cs).2 ++ rest) := by
  cases cs with
  | nil =>
    rw [List.nil_append]
    unfold numberSign
    split
    · exact absurd (by simp [InNumber]) (ends '-' rfl)
    · rfl
  | cons c cs =>
    rw [List.cons_append]
    unfold numberSign
    split <;> simp_all

def readUnsigned (negative : Bool) (cs : List Char) : Option (Value × List Char) :=
  match (digitsAhead cs).1 with
  | [] | '0' :: _ :: _ => none
  | whole =>
    (readPlaces (digitsAhead cs).2).bind fun (places, cs) =>
      (readExponent cs).bind fun (exponent, cs) =>
        (NumberText.mk negative whole places exponent).value.bind fun v => some (v, cs)

theorem read_number_parts (cs : List Char) :
    readNumber cs = readUnsigned (numberSign cs).1 (numberSign cs).2 := by
  unfold readNumber
  split
  rename_i negative after sign_of
  have sign : numberSign cs = (negative, after) := by
    unfold numberSign
    split <;> simp_all
  rw [sign]
  rfl

theorem read_unsigned_append (negative : Bool) (cs : List Char) (ends : EndsNumber rest) :
    readUnsigned negative (cs ++ rest) =
      (readUnsigned negative cs).map fun (v, after) => (v, after ++ rest) := by
  simp only [readUnsigned, digits_ahead_append cs ends]
  split
  · rfl
  · rfl
  · rw [read_places_append _ ends]
    rcases readPlaces (digitsAhead cs).2 with _ | ⟨places, cs⟩
    · rfl
    · simp only [Option.map_some, Option.bind_some, read_exponent_append cs ends]
      rcases readExponent cs with _ | ⟨exponent, cs⟩
      · rfl
      · rw [Option.map_some, Option.bind_some, Option.bind_some, Option.map_bind]
        rfl

theorem read_number_append (cs : List Char) (ends : EndsNumber rest) :
    readNumber (cs ++ rest) = (readNumber cs).map fun (v, after) => (v, after ++ rest) := by
  rw [read_number_parts, read_number_parts, number_sign_append cs ends,
    read_unsigned_append _ _ ends]

theorem number_begins {c : Char} {cs : List Char} {result : Value × List Char}
    (read : readNumber (c :: cs) = some result) : c = '-' ∨ c.isDigit = true := by
  by_cases minus : c = '-'
  · exact Or.inl minus
  · right
    rw [read_number_parts, unsigned_of_no_minus (by simpa using minus)] at read
    by_cases digit : c.isDigit = true
    · exact digit
    · simp [readUnsigned, digitsAhead, digit] at read

/- Integers of 64 bits are read as integers, since all their digits are kept. -/

theorem absorb_all (n : Nat) (digits : List Char)
    (fits : Nat.ofDigitChars 10 digits n < significandLimit) :
    absorb n digits = (Nat.ofDigitChars 10 digits n, digits.length) := by
  induction digits generalizing n with
  | nil => rfl
  | cons c digits ih =>
    rw [Nat.ofDigitChars_cons] at fits ⊢
    have grows : 10 * n + (c.toNat - '0'.toNat) ≤
        Nat.ofDigitChars 10 digits (10 * n + (c.toNat - '0'.toNat)) := by
      rw [Nat.ofDigitChars_eq_ofDigitChars_zero]
      exact Nat.le_add_right_of_le (Nat.le_mul_of_pos_left _ (Nat.pow_pos (by decide)))
    rw [absorb, digitValue, Nat.mul_comm n 10, if_pos (by omega), ih _ fits]
    rfl

theorem digits_are_digits (n : Nat) : ∀ c ∈ Decimal.digitChars n, c.isDigit = true :=
  fun _ member => Nat.isDigit_of_mem_toDigits (by decide) (by decide) member

theorem only_zero_begins_with_zero {n : Nat} (first : (Decimal.digitChars n).head? = some '0') :
    n = 0 := by
  induction n using Nat.strongRecOn with
  | ind n ih =>
    rw [Decimal.digitChars] at first
    by_cases small : n < 10
    · rw [Nat.toDigits_of_lt_base small] at first
      simpa using first
    · rw [Nat.toDigits_of_base_le (by decide) (by omega),
        List.head?_append, Option.or_of_isSome (by simp)] at first
      have := ih (n / 10) (by omega) first
      omega

def IntFits (n : Int) : Prop := -(Nat.pow 2 63 : Nat) ≤ n ∧ n < significandLimit

theorem whole_value {negative : Bool} {n : Nat} (fits : n < significandLimit)
    (fitsNegative : negative = true → 0 < n ∧ n ≤ Nat.pow 2 63) :
    (NumberText.mk negative (Decimal.digitChars n) none none).value =
      some (.int (if negative then -n else n)) := by
  have kept : absorb 0 (Decimal.digitChars n) = (n, (Decimal.digitChars n).length) := by
    have value : Nat.ofDigitChars 10 (Decimal.digitChars n) 0 = n := Nat.ofDigitChars_ten_toDigits
    rw [absorb_all 0 _ (by rw [value]; exact fits), value]
  cases negative with
  | false => simp [NumberText.value, kept]
  | true =>
    obtain ⟨positive, small⟩ := fitsNegative rfl
    have notZero : n ≠ 0 := by omega
    have notLarge : ¬ Nat.pow 2 63 < n := by omega
    simp [NumberText.value, kept, notZero, notLarge]

end Authorship.Json
