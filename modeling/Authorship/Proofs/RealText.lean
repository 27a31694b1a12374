import Authorship.Proofs.JsonText
import Authorship.Proofs.ScaledNumbers
import Authorship.Proofs.ShortestDigits

/-
The text of a double is the text of a number, and there is a value for it, whichever the double is.
Its digits are a little more than the double at most, and what is kept of them when the text is read
is not more than they are, so scaling it does not overflow.
-/
namespace Authorship.Json

open Decimal

/- Digits without zeros at their end. -/

/-- The digits of a positive number, perhaps without zeros at their end. -/
structure Significant (ds : List Char) : Prop where
  digits : AllDigits ds
  nonempty : ds ≠ []
  unpadded : ds.head? ≠ some '0'

theorem trailing_zeros (ds : List Char) :
    ∃ zeros, ds = dropTrailingZeros ds ++ List.replicate zeros '0' := by
  have parts := List.rdropWhile_append_rtakeWhile (p := fun c : Char => decide (c = '0')) (l := ds)
  refine ⟨(ds.rtakeWhile fun c => decide (c = '0')).length, parts.symm.trans ?_⟩
  congr 1
  exact List.eq_replicate_iff.mpr ⟨rfl, fun c member => by
    simpa using List.mem_rtakeWhile_imp member⟩

variable {n : Nat} {ds : List Char} {negative : Bool} {e : Int}

theorem significant_digits (positive : 0 < n) :
    Significant (dropTrailingZeros (digitChars n)) ∧
      ∃ zeros, n = Nat.ofDigitChars 10 (dropTrailingZeros (digitChars n)) 0 * 10 ^ zeros ∧
        (digitChars n).length = (dropTrailingZeros (digitChars n)).length + zeros := by
  obtain ⟨zeros, text⟩ := trailing_zeros (digitChars n)
  have value : Nat.ofDigitChars 10 (digitChars n) 0 = n := Nat.ofDigitChars_ten_toDigits
  have notZero : (digitChars n).head? ≠ some '0' := fun zero =>
    Nat.ne_of_gt positive (only_zero_begins_with_zero zero)
  have all := digits_are_digits n
  generalize dropTrailingZeros (digitChars n) = ds at *
  rw [text, Nat.ofDigitChars_append, Nat.ofDigitChars_replicate_zero] at value
  have nonempty : ds ≠ [] := by
    rintro rfl
    rw [Nat.ofDigitChars_nil, Nat.mul_zero] at value
    omega
  refine ⟨⟨fun c member => all c (text ▸ List.mem_append_left _ member), nonempty, ?_⟩, zeros,
    by rw [Nat.mul_comm, value], by rw [text, List.length_append, List.length_replicate]⟩
  intro zero
  refine notZero ?_
  rw [text, List.head?_append, zero]
  rfl

theorem significant_from (significant : Significant ds) :
    10 ^ (ds.length - 1) ≤ Nat.ofDigitChars 10 ds 0 := by
  obtain ⟨digits, nonempty, unpadded⟩ := significant
  cases ds with
  | nil => exact absurd rfl nonempty
  | cons c cs =>
    have least : 1 ≤ c.toNat - '0'.toNat := by
      have low : '0'.toNat ≤ c.toNat := (Char.isDigit_iff_toNat.mp (digits c List.mem_cons_self)).1
      have other : c.toNat ≠ '0'.toNat := fun same =>
        unpadded (congrArg some (Char.toNat_inj.mp same))
      omega
    rw [Nat.ofDigitChars_cons, Nat.ofDigitChars_eq_ofDigitChars_zero, List.length_cons,
      Nat.add_sub_cancel, Nat.mul_zero, Nat.zero_add]
    exact (Nat.le_mul_of_pos_right _ least).trans (Nat.le_add_right _ _)

/- The parts of the text. -/

def minus (negative : Bool) : List Char := if negative then ['-'] else []

def zeroParts (negative : Bool) : NumberText := ⟨negative, ['0'], some ['0'], none⟩

def plainParts (negative : Bool) (ds : List Char) (e : Int) : NumberText :=
  if e < 0 then ⟨negative, ['0'], some (List.replicate ((-e).toNat - 1) '0' ++ ds), none⟩
  else
    let whole := e.toNat + 1
    let places := ds.drop whole
    ⟨negative, ds.take whole ++ List.replicate (whole - ds.length) '0',
      some (if places.isEmpty then ['0'] else places), none⟩

def exponentParts (negative : Bool) (ds : List Char) (e : Int) : NumberText :=
  ⟨negative, ds.take 1, if ds.tail.isEmpty then none else some ds.tail,
    some (decide (e < 0), digitChars e.natAbs)⟩

theorem zero_digits (k : Nat) : AllDigits (List.replicate k '0') := by
  intro c member
  rw [List.eq_of_mem_replicate member]
  decide

theorem AllDigits.append {left right : List Char} (h : AllDigits left) (h' : AllDigits right) :
    AllDigits (left ++ right) := fun c member =>
  (List.mem_append.mp member).elim (h c) (h' c)

theorem zero_well_formed (negative : Bool) : (zeroParts negative).WellFormed where
  whole := zero_digits 1
  some := List.cons_ne_nil _ _
  unpadded := by simp [zeroParts]
  places := by
    rintro _ ⟨⟩
    exact ⟨zero_digits 1, List.cons_ne_nil _ _⟩
  exponent := nofun

theorem plain_chars : (plainParts negative ds e).chars = minus negative ++ writtenOut ds e := by
  rw [plainParts, writtenOut]
  split <;> simp [minus, NumberText.chars, NumberText.signChars, NumberText.placesChars,
    NumberText.exponentChars]

theorem plain_well_formed (significant : Significant ds) :
    (plainParts negative ds e).WellFormed := by
  obtain ⟨digits, nonempty, unpadded⟩ := significant
  rw [plainParts]
  split
  · refine ⟨zero_digits 1, List.cons_ne_nil _ _, by simp, ?_, nofun⟩
    rintro _ ⟨⟩
    exact ⟨(zero_digits _).append digits, List.append_ne_nil_of_right_ne_nil _ nonempty⟩
  · obtain ⟨c, cs, rfl⟩ := List.exists_cons_of_ne_nil nonempty
    have first : c ≠ '0' := fun zero => unpadded (congrArg some zero)
    refine ⟨?_, by simp, by simp [first], ?_, nofun⟩
    · exact AllDigits.append (fun d member => digits d (List.mem_of_mem_take member))
        (zero_digits _)
    · rintro _ ⟨⟩
      split
      · exact ⟨zero_digits 1, List.cons_ne_nil _ _⟩
      · rename_i places
        exact ⟨fun d member => digits d (List.mem_of_mem_drop member), by simpa using places⟩

theorem plain_value (significant : Significant ds) (most : e ≤ 15) :
    ∃ x, (plainParts negative ds e).value = some (.real x) := by
  have wellFormed : (plainParts negative ds e).WellFormed := plain_well_formed significant
  have short : (plainParts negative ds e).whole.length ≤ 16 := by
    rw [plainParts]
    split
    · simp
    · simp only [List.length_append, List.length_take, List.length_replicate]
      omega
  have fields : ∃ places, (plainParts negative ds e).places = some places ∧
      (plainParts negative ds e).exponent = none := by
    rw [plainParts]
    split <;> exact ⟨_, rfl, rfl⟩
  obtain ⟨places, given, none⟩ := fields
  exact NumberText.value_of_places wellFormed short given none

theorem exponent_chars :
    (exponentParts negative ds e).chars = minus negative ++ withExponent ds e := by
  match ds with
  | [] | [_] | _ :: _ :: _ =>
    simp [exponentParts, withExponent, pointedAfterFirst, minus, NumberText.chars,
      NumberText.signChars, NumberText.placesChars, NumberText.exponentChars]

theorem exponent_well_formed (significant : Significant ds) :
    (exponentParts negative ds e).WellFormed := by
  obtain ⟨digits, nonempty, -⟩ := significant
  obtain ⟨c, cs, rfl⟩ := List.exists_cons_of_ne_nil nonempty
  refine ⟨fun d member => digits d (List.mem_of_mem_take member), by simp [exponentParts],
    by simp [exponentParts], ?_, ?_⟩
  · intro places given
    cases cs with
    | nil => contradiction
    | cons d ds =>
      cases given
      exact ⟨fun d member => digits d (List.mem_cons_of_mem c member), List.cons_ne_nil _ _⟩
  · rintro _ ⟨⟩
    exact ⟨digits_are_digits _, Nat.toDigits_ne_nil⟩

theorem exponent_magnitude (nonempty : ds ≠ []) : (exponentParts negative ds e).magnitude =
    Nat.ofDigitChars 10 ds 0 * 10 ^ (-(ds.length - 1 : Nat) : Int) := by
  obtain ⟨c, cs, rfl⟩ := List.exists_cons_of_ne_nil nonempty
  have places : (exponentParts negative (c :: cs) e).places.getD [] = cs := by
    cases cs <;> rfl
  rw [NumberText.magnitude, places]
  rfl

def placed (ds : List Char) (e : Int) : Rat :=
  Nat.ofDigitChars 10 ds 0 * 10 ^ (e - (ds.length - 1 : Nat))

theorem placed_eq (nonempty : ds ≠ []) :
    (exponentParts negative ds e).magnitude * 10 ^ e = placed ds e := by
  rw [exponent_magnitude nonempty, placed, mul_assoc, ← zpow_add₀ (by norm_num), Int.add_comm]
  rfl

/-- The first digit alone shows that the exponent is small. -/
theorem exponent_small (significant : Significant ds) {k : Nat}
    (within : placed ds k ≤ roundedLimit) : k < greatestPower + 1 := by
  have exponent : (k : Int) = (ds.length - 1 : Nat) + (k - (ds.length - 1 : Nat)) :=
    (add_sub_cancel _ _).symm
  have least : ((10 ^ (ds.length - 1) : Nat) : Rat) ≤ Nat.ofDigitChars 10 ds 0 := by
    exact_mod_cast significant_from significant
  have power : (10 : Rat) ^ k ≤ placed ds k := by
    calc (10 : Rat) ^ k = 10 ^ (ds.length - 1) * 10 ^ (k - (ds.length - 1 : Nat) : Int) := by
          rw [← zpow_natCast, ← zpow_natCast, ← zpow_add₀ (by norm_num), ← exponent]
      _ ≤ placed ds k := mul_le_mul_of_nonneg_right (by exact_mod_cast least)
          (zpow_pos (by norm_num) _).le
  have below : 10 ^ k < 10 ^ (greatestPower + 1) := by
    have natural : 10 ^ k ≤ roundedLimit := by exact_mod_cast power.trans within
    exact natural.trans_lt limit_below_power
  exact (Nat.pow_lt_pow_iff_right (by decide)).mp below

theorem exponent_value (significant : Significant ds) (notZero : e ≠ 0)
    (within : placed ds e ≤ roundedLimit) :
    ∃ x, (exponentParts negative ds e).value = some (.real x) := by
  have wellFormed : (exponentParts negative ds e).WellFormed := exponent_well_formed significant
  have whole := wellFormed.whole
  have short : (exponentParts negative ds e).whole.length ≤ 16 := by
    have taken : (ds.take 1).length ≤ 1 := List.length_take_le 1 ds
    exact taken.trans (by decide)
  have exponent : (exponentParts negative ds e).exponent =
    some (decide (e < 0), digitChars e.natAbs) := rfl
  have value := digits_value e.natAbs
  by_cases below : e < 0
  · rw [decide_eq_true below] at exponent
    exact NumberText.value_of_small whole short exponent (by rw [value]; omega)
  · obtain ⟨k, rfl⟩ := Int.eq_ofNat_of_zero_le (Int.not_lt.mp below)
    rw [decide_eq_false below] at exponent
    have limits : greatestPower + 1 < exponentLimit := by decide
    have small := exponent_small significant within
    refine NumberText.value_of_scaled exponent (by rw [value]; omega) fun above => ?_
    have kept := NumberText.kept_at_most (t := exponentParts negative ds k) whole short
    have significand := NumberText.significand_below (t := exponentParts negative ds k) whole short
    rw [value] at above ⊢
    obtain ⟨turns, same⟩ := Int.eq_ofNat_of_zero_le above
    rw [same]
    refine scale_up significand ?_
    -- The reader scales what it keeps of the digits, and that is at most what they all stand for.
    have scaled :
        ((exponentParts negative ds k).significand : Rat) * 10 ^ turns ≤ roundedLimit := by
      calc ((exponentParts negative ds k).significand : Rat) * 10 ^ turns
          = (exponentParts negative ds k).significand *
              10 ^ (exponentParts negative ds k).start * 10 ^ (k : Int) := by
            rw [mul_assoc, ← zpow_add₀ (by norm_num), ← zpow_natCast, ← same]
            rfl
        _ ≤ (exponentParts negative ds k).magnitude * 10 ^ (k : Int) :=
            mul_le_mul_of_nonneg_right kept (zpow_pos (by norm_num) _).le
        _ = placed ds k := placed_eq significant.nonempty
        _ ≤ roundedLimit := within
    exact_mod_cast scaled

def NumberChars (cs : List Char) : Prop :=
  ∃ t : NumberText, t.WellFormed ∧ t.value.isSome = true ∧ t.chars = cs

theorem zero_chars (negative : Bool) : NumberChars (minus negative ++ "0.0".toList) := by
  refine ⟨zeroParts negative, zero_well_formed negative, ?_, rfl⟩
  cases negative <;> decide +kernel

theorem written_chars {d : Digits} (positive : 0 < d.digits)
    (within : d.digits * (10 : Rat) ^ d.exponent ≤ roundedLimit) (negative : Bool) :
    NumberChars (minus negative ++ jsonForm.write d) := by
  obtain ⟨significant, zeros, value, length⟩ := significant_digits positive
  have least := List.length_pos_of_ne_nil significant.nonempty
  rw [Form.write]
  generalize dropTrailingZeros (digitChars d.digits) = ds at *
  generalize (digitChars d.digits).length = count at *
  have placed_value : placed ds (d.exponent + (count - 1 : Nat)) ≤ roundedLimit := by
    have exponent : d.exponent + (count - 1 : Nat) - (ds.length - 1 : Nat) =
        zeros + d.exponent := by omega
    rw [value, Nat.cast_mul, Nat.cast_pow, Nat.cast_ofNat, mul_assoc, ← zpow_natCast,
      ← zpow_add₀ (by norm_num)] at within
    rw [placed, exponent]
    exact within
  generalize d.exponent + (count - 1 : Nat) = e at *
  by_cases plain : jsonForm.leastPlain ≤ e ∧ e ≤ jsonForm.greatestPlain
  · obtain ⟨x, some⟩ : ∃ x, (plainParts negative ds e).value = some (.real x) :=
      plain_value significant plain.2
    rw [if_pos plain]
    exact ⟨_, plain_well_formed significant, Option.isSome_of_eq_some some, plain_chars⟩
  · have notZero : e ≠ 0 := fun zero => plain (by rw [zero]; decide)
    rw [if_neg plain]
    obtain ⟨x, some⟩ : ∃ x, (exponentParts negative ds e).value = some (.real x) :=
      exponent_value significant notZero placed_value
    exact ⟨_, exponent_well_formed significant, Option.isSome_of_eq_some some, exponent_chars⟩

theorem greatest_chars (negative : Bool) :
    NumberChars (minus negative ++ jsonForm.write (shortest (2 ^ 53 - 1) 971)) := by
  have text : jsonForm.write (shortest (2 ^ 53 - 1) 971) =
      withExponent (digitChars 17976931348623157) 308 := by decide +kernel
  have significant : Significant (digitChars 17976931348623157) :=
    ⟨digits_are_digits _, Nat.toDigits_ne_nil, fun zero =>
      absurd (only_zero_begins_with_zero zero) (by decide)⟩
  rw [text]
  refine ⟨_, exponent_well_formed significant, ?_, exponent_chars⟩
  cases negative <;> decide +kernel

theorem binary_of_finite {x : Float} (finite : x.isFinite = true) :
    ∃ negative m e, binaryOf x = .finite negative m e ∧ m < 2 ^ 53 ∧ e ≤ 971 := by
  have field := (finite_iff_field x).mp finite
  have fraction : x.toBits.toNat % 2 ^ 52 < 2 ^ 52 := Nat.mod_lt _ (by decide)
  have below : x.toBits.toNat / 2 ^ 52 % 2 ^ 11 < 2 ^ 11 := Nat.mod_lt _ (by decide)
  have powers : Nat.pow 2 mantissaBits = 2 ^ 52 ∧ Nat.pow 2 11 = 2 ^ 11 := ⟨rfl, rfl⟩
  rw [binaryOf]
  simp only [powers, if_neg field, leastExponent]
  split
  · exact ⟨_, _, _, rfl, by omega, by decide⟩
  · exact ⟨_, _, _, rfl, by omega, by omega⟩

/-- Half a step above any double but the greatest. -/
theorem half_step_above {m : Nat} {e : Int} (mantissa : m < 2 ^ 53) (most : e ≤ 971)
    (other : m + 1 < 2 ^ 53 ∨ e < 971) : (2 * m + 1) * 2 ^ (e - 1) ≤ (roundedLimit : Rat) := by
  have limit : (roundedLimit : Rat) = (2 ^ 54 - 3) * 2 ^ (970 : Int) := by
    rw [roundedLimit, Nat.cast_mul, Nat.cast_pow, Nat.cast_ofNat]
    norm_num
  have scaled {a : Rat} {k f : Int} (exponent : f ≤ k) (bound : (2 * m + 1 : Rat) ≤ a) :
      (2 * m + 1) * 2 ^ f ≤ a * (2 : Rat) ^ k :=
    mul_le_mul bound (zpow_le_zpow_right₀ one_le_two exponent) (zpow_pos two_pos f).le
      (by linarith [(Nat.cast_nonneg m : (0 : Rat) ≤ m)])
  rw [limit]
  rcases other with short | less
  · have bound : (m : Rat) + 2 ≤ 2 ^ 53 := by exact_mod_cast short
    exact scaled (by omega) (by linarith)
  · have bound : (m : Rat) + 1 ≤ 2 ^ 53 := by exact_mod_cast mantissa
    have smaller := scaled (k := 969) (f := e - 1) (by omega) (by linarith : _ ≤ (2 ^ 54 - 1 : Rat))
    have double : (2 : Rat) ^ (970 : Int) = 2 * 2 ^ (969 : Int) := zpow_one_add₀ two_ne_zero 969
    rw [double, ← mul_assoc]
    exact smaller.trans (mul_le_mul_of_nonneg_right (by norm_num) (zpow_pos two_pos _).le)

theorem shortest_chars {m : Nat} {e : Int} (some : 0 < m) (mantissa : m < 2 ^ 53) (most : e ≤ 971)
    (negative : Bool) :
    NumberChars (minus negative ++ jsonForm.write (shortest m e)) := by
  by_cases greatest : m = 2 ^ 53 - 1 ∧ e = 971
  · obtain ⟨rfl, rfl⟩ := greatest
    exact greatest_chars negative
  · rcases shortest_found some e with nothing | found
    · have text : jsonForm.write ⟨0, 0⟩ = "0.0".toList := by decide
      rw [nothing, text]
      exact zero_chars negative
    · exact written_chars found.some
        (found.atMost.trans (half_step_above mantissa most (by omega))) negative

theorem real_number_chars {x : Float} (finite : x.isFinite = true) :
    NumberChars (realChars x) := by
  have signed (negative : Bool) (cs : List Char) : (signText negative (String.ofList cs)).toList =
      minus negative ++ cs := by
    cases negative <;> simp [signText, minus]
  obtain ⟨negative, m, e, binary, mantissa, most⟩ := binary_of_finite finite
  rw [realChars, floatText?, binary]
  split
  · rename_i negative _ same
    rw [Option.getD_some]
    exact signed negative "0.0".toList ▸ zero_chars negative
  · rename_i negative' m' e' notZero same
    cases same
    rw [Option.getD_some, signed]
    exact shortest_chars (Nat.pos_of_ne_zero notZero) mantissa most _
  · rename_i other
    exact absurd rfl (other _ _ _)

theorem real_read {x : Float} (finite : x.isFinite = true) :
    readNumber (realChars x) = some (realBack x, []) := by
  obtain ⟨t, wellFormed, some, chars⟩ := real_number_chars finite
  obtain ⟨v, value⟩ := Option.isSome_iff_exists.mp some
  have read : readNumber (realChars x) = .some (v, []) := by
    rw [← chars, read_parts wellFormed, value]
    rfl
  rw [read, real_back_of_read read]

end Authorship.Json
