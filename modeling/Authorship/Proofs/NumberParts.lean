import Authorship.Proofs.NumberText
import Mathlib

/-
The text of a number from its parts. It is read as the value of these parts, whatever they are, and
so it depends on the value alone whether there is a number: an integer comes back, and only a number
with a large exponent can have none.
-/
namespace Authorship.Json

def AllDigits (cs : List Char) : Prop := ∀ c ∈ cs, c.isDigit = true

namespace NumberText

def signChars (t : NumberText) : List Char := if t.negative then ['-'] else []

def placesChars (t : NumberText) : List Char :=
  match t.places with
  | none => []
  | some digits => '.' :: digits

def exponentChars (t : NumberText) : List Char :=
  match t.exponent with
  | none => []
  | some (negative, digits) => 'e' :: (if negative then '-' else '+') :: digits

def chars (t : NumberText) : List Char :=
  t.signChars ++ (t.whole ++ (t.placesChars ++ t.exponentChars))

/-- Digits where there must be some, and no zero too many in front. -/
structure WellFormed (t : NumberText) : Prop where
  whole : AllDigits t.whole
  some : t.whole ≠ []
  unpadded : ∀ d ds, t.whole ≠ '0' :: d :: ds
  places : ∀ digits ∈ t.places, AllDigits digits ∧ digits ≠ []
  exponent : ∀ parts ∈ t.exponent, AllDigits parts.2 ∧ parts.2 ≠ []

variable {t : NumberText}

theorem chars_in_number (wellFormed : t.WellFormed) : ∀ c ∈ t.chars, InNumber c := by
  intro c member
  have digits {ds : List Char} (all : AllDigits ds) (member : c ∈ ds) : InNumber c :=
    Or.inl (all c member)
  rw [chars, List.mem_append, List.mem_append, List.mem_append] at member
  rcases member with sign | whole | places | exponent
  · rw [signChars] at sign
    split at sign <;> simp_all [InNumber]
  · exact digits wellFormed.whole whole
  · rw [placesChars] at places
    split at places
    · contradiction
    · rename_i ds given
      rcases List.mem_cons.mp places with rfl | member
      · simp [InNumber]
      · exact digits (wellFormed.places ds given).1 member
  · rw [exponentChars] at exponent
    split at exponent
    · contradiction
    · rename_i negative ds given
      rcases List.mem_cons.mp exponent with rfl | member
      · simp [InNumber]
      · rcases List.mem_cons.mp member with rfl | member
        · cases negative <;> simp [InNumber]
        · exact digits (wellFormed.exponent (negative, ds) given).1 member

end NumberText

variable {rest : List Char}

theorem digits_ahead_of {ds : List Char} (all : AllDigits ds)
    (stops : ∀ c ∈ rest.head?, c.isDigit = false) : digitsAhead (ds ++ rest) = (ds, rest) := by
  have none : rest.takeWhile Char.isDigit = [] ∧ rest.dropWhile Char.isDigit = rest := by
    cases rest with
    | nil => exact ⟨rfl, rfl⟩
    | cons c cs => simp [stops c rfl]
  rw [digitsAhead, List.takeWhile_append_of_pos all, List.dropWhile_append_of_pos all, none.1,
    none.2, List.append_nil]

theorem exponent_stops (t : NumberText) : ∀ c ∈ t.exponentChars.head?, c.isDigit = false := by
  intro c first
  rw [NumberText.exponentChars] at first
  split at first
  · contradiction
  · cases first
    decide

theorem places_stop (t : NumberText) :
    ∀ c ∈ (t.placesChars ++ t.exponentChars).head?, c.isDigit = false := by
  intro c first
  rw [NumberText.placesChars] at first
  split at first
  · exact exponent_stops t c first
  · cases first
    decide

variable {t : NumberText}

theorem read_places_chars (wellFormed : t.WellFormed) :
    readPlaces (t.placesChars ++ t.exponentChars) = some (t.places, t.exponentChars) := by
  rw [NumberText.placesChars]
  split
  · rename_i given
    rw [given, List.nil_append, no_places]
    rw [NumberText.exponentChars]
    split <;> simp
  · rename_i ds given
    obtain ⟨digits, some⟩ := wellFormed.places ds given
    rw [given, List.cons_append, readPlaces, digits_ahead_of digits (exponent_stops t)]
    cases ds with
    | nil => exact absurd rfl some
    | cons d ds => rfl

theorem read_exponent_chars (wellFormed : t.WellFormed) :
    readExponent t.exponentChars = some (t.exponent, []) := by
  rw [NumberText.exponentChars]
  split
  · rename_i given
    rw [given]
    rfl
  · rename_i negative ds given
    obtain ⟨digits, some⟩ := wellFormed.exponent (negative, ds) given
    have sign : exponentSign ((if negative then '-' else '+') :: ds) = (negative, ds) := by
      cases negative <;> rfl
    have ahead : digitsAhead (ds ++ []) = (ds, []) := digits_ahead_of digits (by simp)
    rw [List.append_nil] at ahead
    rw [given, read_exponent_cons, if_pos (Or.inl rfl), sign, readExponentDigits, ahead]
    cases ds with
    | nil => exact absurd rfl some
    | cons d ds => rfl

theorem read_unsigned_chars (wellFormed : t.WellFormed) :
    readUnsigned t.negative (t.whole ++ (t.placesChars ++ t.exponentChars)) =
      t.value.map (·, []) := by
  rw [readUnsigned, digits_ahead_of wellFormed.whole (places_stop t)]
  split
  · rename_i empty
    exact absurd empty wellFormed.some
  · rename_i d ds padded
    exact absurd padded (wellFormed.unpadded d ds)
  · simp only [read_places_chars wellFormed, read_exponent_chars wellFormed, Option.bind_some]
    exact Option.map_eq_bind.symm

theorem read_parts (wellFormed : t.WellFormed) :
    readNumber t.chars = t.value.map (·, []) := by
  have sign : numberSign t.chars =
      (t.negative, t.whole ++ (t.placesChars ++ t.exponentChars)) := by
    rw [NumberText.chars, NumberText.signChars]
    cases negative : t.negative with
    | true => rfl
    | false =>
      apply unsigned_of_no_minus
      intro minus
      cases whole : t.whole with
      | nil => exact wellFormed.some whole
      | cons c cs =>
        have digit := wellFormed.whole c (whole ▸ List.mem_cons_self)
        simp only [whole, Bool.false_eq_true, ↓reduceIte, List.nil_append, List.cons_append,
          List.head?_cons, Option.some.injEq] at minus
        rw [minus] at digit
        exact absurd digit (by decide)
  rw [read_number_parts, sign, read_unsigned_chars wellFormed]

def intParts (n : Int) : NumberText :=
  ⟨decide (n < 0), Decimal.digitChars n.natAbs, none, none⟩

theorem int_chars (n : Int) : (intParts n).chars = (Decimal.intText n).toList := by
  rw [Decimal.intText, Decimal.natText]
  split <;> simp_all [intParts, NumberText.chars, NumberText.signChars, NumberText.placesChars,
    NumberText.exponentChars]

theorem int_well_formed (n : Int) : (intParts n).WellFormed where
  whole := digits_are_digits _
  some := Nat.toDigits_ne_nil
  unpadded := by
    intro d ds zero
    have text : Decimal.digitChars n.natAbs = '0' :: d :: ds := zero
    have nothing : n.natAbs = 0 := only_zero_begins_with_zero (by rw [text]; rfl)
    have one : Decimal.digitChars 0 = ['0'] := by decide
    rw [nothing, one] at text
    simp at text
  places := nofun
  exponent := nofun

theorem read_int {n : Int} (fits : IntFits n) :
    readNumber (Decimal.intText n).toList = some (.int n, []) := by
  obtain ⟨least, greatest⟩ := fits
  have limits : significandLimit = 2 ^ 64 ∧ Nat.pow 2 63 = 2 ^ 63 := by decide
  rw [limits.1] at greatest
  rw [limits.2] at least
  have value : (intParts n).value = some (.int (if decide (n < 0) then -n.natAbs else n.natAbs)) :=
    whole_value (by rw [limits.1]; omega) fun negative => by
      have negative : n < 0 := of_decide_eq_true negative
      rw [limits.2]
      omega
  have same : (if decide (n < 0) then -(n.natAbs : Int) else n.natAbs) = n := by
    by_cases negative : n < 0
    · rw [if_pos (decide_eq_true negative)]
      omega
    · rw [if_neg (by simpa using negative)]
      omega
  rw [← int_chars, read_parts (int_well_formed n), value, same]
  rfl

/- The digits that are kept. -/

theorem digit_value_at_most {c : Char} (digit : c.isDigit = true) :
    c.toNat - '0'.toNat ≤ 9 := by
  have most := (Char.isDigit_iff_toNat.mp digit).2
  have nine : '9'.toNat = 57 ∧ '0'.toNat = 48 := by decide
  omega

theorem digits_below {ds : List Char} (all : AllDigits ds) :
    Nat.ofDigitChars 10 ds 0 < 10 ^ ds.length := by
  induction ds with
  | nil => decide
  | cons c ds ih =>
    have first := digit_value_at_most (all c List.mem_cons_self)
    have others := ih fun d member => all d (List.mem_cons_of_mem c member)
    rw [Nat.ofDigitChars_cons, Nat.ofDigitChars_eq_ofDigitChars_zero, List.length_cons,
      Nat.pow_succ, Nat.mul_zero, Nat.zero_add]
    have scaled := Nat.mul_le_mul_left (10 ^ ds.length) first
    omega

theorem short_absorbed {ds : List Char} (all : AllDigits ds) (short : ds.length ≤ 16) :
    absorb 0 ds = (Nat.ofDigitChars 10 ds 0, ds.length) ∧
      Nat.ofDigitChars 10 ds 0 < 10 ^ 16 := by
  have below : Nat.ofDigitChars 10 ds 0 < 10 ^ 16 :=
    (digits_below all).trans_le (Nat.pow_le_pow_right (by decide) short)
  have limit : (10 : Nat) ^ 16 ≤ significandLimit := by decide
  exact ⟨absorb_all 0 ds (below.trans_le limit), below⟩

theorem absorb_bounds (ds : List Char) {n : Nat} (small : n < significandLimit) :
    (absorb n ds).1 < significandLimit ∧ (absorb n ds).2 ≤ ds.length ∧
      (absorb n ds).1 * 10 ^ (ds.length - (absorb n ds).2) ≤ Nat.ofDigitChars 10 ds n := by
  induction ds generalizing n with
  | nil => exact ⟨small, Nat.le_refl 0, Nat.le_of_eq (Nat.mul_one n)⟩
  | cons c ds ih =>
    rw [Nat.ofDigitChars_cons, absorb, digitValue, Nat.mul_comm n 10]
    dsimp only
    by_cases fits : 10 * n + (c.toNat - '0'.toNat) < significandLimit
    · rw [if_pos fits, List.length_cons, Nat.add_sub_add_right]
      obtain ⟨below, taken, kept⟩ := ih fits
      exact ⟨below, Nat.succ_le_succ taken, kept⟩
    · rw [if_neg fits, List.length_cons, Nat.sub_zero, Nat.ofDigitChars_eq_ofDigitChars_zero]
      refine ⟨small, Nat.zero_le _, ?_⟩
      rw [Nat.pow_succ]
      nlinarith [Nat.zero_le (10 ^ ds.length * (c.toNat - '0'.toNat))]

theorem some_absorbed {n : Nat} {ds : List Char} (all : AllDigits ds) (some : ds ≠ [])
    (small : n < 10 ^ 16) : 0 < (absorb n ds).2 := by
  cases ds with
  | nil => exact absurd rfl some
  | cons c ds =>
    have first := digit_value_at_most (all c List.mem_cons_self)
    have fits : n * 10 + digitValue c < significandLimit := by
      have limit : significandLimit = 2 ^ 64 := by decide
      rw [digitValue, limit]
      omega
    rw [absorb]
    dsimp only
    rw [if_pos fits]
    exact Nat.succ_pos _

theorem scale_down (turns : Nat) (x : Float) {e : Int} (negative : e < 0) :
    ∃ y, scaleByTen turns x e = some y := by
  induction turns generalizing x e with
  | zero =>
    have notAbove : ¬ 0 ≤ e := by omega
    unfold scaleByTen
    split
    · exact ⟨_, rfl⟩
    · split <;> exact ⟨x, rfl⟩
  | succ turns ih =>
    have notAbove : ¬ 0 ≤ e := by omega
    unfold scaleByTen
    split
    · exact ⟨_, rfl⟩
    · rename_i far
      have power : greatestPower = 308 := rfl
      rw [power] at far ⊢
      split
      · exact ⟨x, rfl⟩
      · exact ih _ (by omega)

namespace NumberText

def significand (t : NumberText) : Nat := (absorb (absorb 0 t.whole).1 (t.places.getD [])).1

def start (t : NumberText) : Int :=
  (t.whole.length - (absorb 0 t.whole).2 : Nat) -
    ((absorb (absorb 0 t.whole).1 (t.places.getD [])).2 : Nat)

theorem real_value (t : NumberText) (real : t.places ≠ none ∨ t.exponent ≠ none) :
    t.value = (realValue t.negative t.significand t.start t.exponent).map .real := by
  obtain ⟨negative, whole, places, exponent⟩ := t
  cases places with
  | none =>
    cases exponent with
    | none => simp at real
    | some parts => rfl
  | some digits => rfl

theorem start_of_short (whole : AllDigits t.whole) (short : t.whole.length ≤ 16) :
    t.start = -((absorb (absorb 0 t.whole).1 (t.places.getD [])).2 : Nat) := by
  rw [start, (short_absorbed whole short).1]
  simp

/-- Without an exponent the places make the number smaller. -/
theorem value_of_places (wellFormed : t.WellFormed) (short : t.whole.length ≤ 16)
    {digits : List Char} (places : t.places = some digits) (exponent : t.exponent = none) :
    ∃ x, t.value = some (.real x) := by
  obtain ⟨all, some⟩ := wellFormed.places digits places
  obtain ⟨absorbed, small⟩ := short_absorbed wellFormed.whole short
  have taken := some_absorbed all some small
  have negative : t.start < 0 := by
    rw [start_of_short wellFormed.whole short, absorbed, places, Option.getD_some]
    dsimp only
    omega
  obtain ⟨y, scaled⟩ := scale_down 3 (Float.ofNat t.significand) negative
  rw [t.real_value (Or.inl (by rw [places]; exact Option.some_ne_none _)), exponent, realValue]
  dsimp only
  rw [scaled]
  exact ⟨_, rfl⟩

theorem value_of_small (whole : AllDigits t.whole) (short : t.whole.length ≤ 16)
    {digits : List Char} (exponent : t.exponent = some (true, digits))
    (positive : 0 < digitsValue digits) : ∃ x, t.value = some (.real x) := by
  rw [t.real_value (Or.inr (by rw [exponent]; exact Option.some_ne_none _)), exponent, realValue]
  dsimp only
  split
  · have negative : t.start - digitsValue digits < 0 := by
      rw [start_of_short whole short]
      omega
    obtain ⟨y, scaled⟩ := scale_down 3 (Float.ofNat t.significand) negative
    rw [if_pos rfl, scaled]
    exact ⟨_, rfl⟩
  · rw [if_pos (by simp)]
    exact ⟨_, rfl⟩

theorem value_of_scaled {digits : List Char} (exponent : t.exponent = some (false, digits))
    (small : digitsValue digits < exponentLimit)
    (scaled : 0 ≤ t.start + digitsValue digits →
      ∃ y, scaleByTen 3 (Float.ofNat t.significand) (t.start + digitsValue digits) = some y) :
    ∃ x, t.value = some (.real x) := by
  have result : ∃ y, scaleByTen 3 (Float.ofNat t.significand) (t.start + digitsValue digits) =
      some y := by
    by_cases above : 0 ≤ t.start + digitsValue digits
    · exact scaled above
    · exact scale_down 3 _ (by omega)
  obtain ⟨y, result⟩ := result
  rw [t.real_value (Or.inr (by rw [exponent]; exact Option.some_ne_none _)), exponent, realValue]
  dsimp only
  rw [if_pos small, if_neg Bool.false_ne_true, result]
  exact ⟨_, rfl⟩

def magnitude (t : NumberText) : Rat :=
  Nat.ofDigitChars 10 (t.whole ++ t.places.getD []) 0 * 10 ^ (-(t.places.getD []).length : Int)

theorem significand_below (whole : AllDigits t.whole) (short : t.whole.length ≤ 16) :
    t.significand < significandLimit := by
  obtain ⟨absorbed, small⟩ := short_absorbed whole short
  have limit : (10 : Nat) ^ 16 ≤ significandLimit := by decide
  rw [significand, absorbed]
  exact (absorb_bounds _ (small.trans_le limit)).1

theorem kept_at_most (whole : AllDigits t.whole) (short : t.whole.length ≤ 16) :
    (t.significand : Rat) * 10 ^ t.start ≤ t.magnitude := by
  obtain ⟨absorbed, small⟩ := short_absorbed whole short
  have limit : (10 : Nat) ^ 16 ≤ significandLimit := by decide
  obtain ⟨-, taken, kept⟩ := absorb_bounds (t.places.getD []) (small.trans_le limit)
  rw [magnitude, start_of_short whole short, significand, absorbed, Nat.ofDigitChars_append]
  dsimp only
  generalize absorb (Nat.ofDigitChars 10 t.whole 0) (t.places.getD []) = result at *
  have exponent : -(result.2 : Int) =
      ((t.places.getD []).length - result.2 : Nat) + -((t.places.getD []).length : Int) := by omega
  rw [exponent, zpow_add₀ (by norm_num), zpow_natCast, ← mul_assoc]
  exact mul_le_mul_of_nonneg_right (by exact_mod_cast kept) (zpow_pos (by norm_num) _).le

end NumberText

theorem digits_value_eq (ds : List Char) : digitsValue ds = Nat.ofDigitChars 10 ds 0 := by
  simp only [digitsValue, Nat.ofDigitChars, digitValue, Nat.mul_comm]

theorem digits_value (n : Nat) : digitsValue (Decimal.digitChars n) = n := by
  rw [digits_value_eq]
  exact Nat.ofDigitChars_ten_toDigits

end Authorship.Json
