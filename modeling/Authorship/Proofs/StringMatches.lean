import Authorship.Analysis.Structure
import Authorship.Proofs.PatternPlaces
import Authorship.Proofs.Segments

/-
What the pattern for string literals finds on a line. It reads the line once with one of three
states: before a literal, in one, or behind a backslash in one. Only double quotes and backslashes
move it, and every quote that it takes for a closing one is the end of a match.
-/
namespace Authorship

open Analysis Source

inductive Reading where
  | outside
  | inside
  | escaped
deriving DecidableEq, Repr

namespace Reading

def next : Reading → Char → Reading
  | .outside, c => if c = '"' then .inside else .outside
  | .inside, c => if c = '"' then .outside else if c = '\\' then .escaped else .inside
  | .escaped, _ => .inside

def closes (r : Reading) (c : Char) : Bool := r = .inside && c = '"'

def after (r : Reading) (cs : List Char) : Reading := cs.foldl next r

def found (r : Reading) : List Char → Nat
  | [] => 0
  | c :: cs => (if r.closes c then 1 else 0) + (r.next c).found cs

variable {r : Reading} {c : Char} {xs held : List Char}

theorem found_append (r : Reading) (xs ys : List Char) :
    r.found (xs ++ ys) = r.found xs + (r.after xs).found ys := by
  induction xs generalizing r with
  | nil => exact (Nat.zero_add _).symm
  | cons c xs ih =>
    rw [List.cons_append, found, ih, found, Nat.add_assoc]
    rfl

theorem after_append (r : Reading) (xs ys : List Char) :
    r.after (xs ++ ys) = (r.after xs).after ys := List.foldl_append

theorem after_cons (r : Reading) (c : Char) (cs : List Char) :
    r.after (c :: cs) = (r.next c).after cs := rfl

@[simp] theorem found_outside_quote (cs : List Char) :
    found .outside ('"' :: cs) = found .inside cs := Nat.zero_add _

@[simp] theorem found_inside_quote (cs : List Char) :
    found .inside ('"' :: cs) = 1 + found .outside cs := rfl

@[simp] theorem found_escaped (c : Char) (cs : List Char) :
    found .escaped (c :: cs) = found .inside cs := Nat.zero_add _

theorem found_outside_other (other : c ≠ '"') (cs : List Char) :
    found .outside (c :: cs) = found .outside cs := by
  simp [found, closes, next, other]

theorem inside_content (content : Content .double held) :
    found .inside held = 0 ∧ after .inside held = .inside := by
  induction content with
  | nil => exact ⟨rfl, rfl⟩
  | @ordinary c body escape quote newline more ih =>
    have stays : next .inside c = .inside := by
      simp [next, show c ≠ '"' from quote, escape]
    have open' : closes .inside c = false := by simp [closes, show c ≠ '"' from quote]
    rw [found, after_cons, stays, open']
    exact ⟨(Nat.zero_add _).trans ih.1, ih.2⟩
  | @escaped c body newline more ih =>
    refine ⟨?_, ih.2⟩
    calc found .inside ('\\' :: c :: body) = 0 + (0 + found .inside body) := rfl
      _ = 0 := by rw [ih.1]

/-- Read from outside, an escaped quote opens a literal, and what is held after it closes none. -/
theorem outside_content (content : Content .double held) : found .outside held = 0 ∧
    (after .outside held = .outside ∨ after .outside held = .inside) := by
  induction content with
  | nil => exact ⟨rfl, Or.inl rfl⟩
  | @ordinary c body escape quote newline more ih =>
    rw [found_outside_other quote, after_cons]
    simpa [next, show c ≠ '"' from quote] using ih
  | @escaped c body newline more ih =>
    rw [found_outside_other (by decide), after_cons]
    by_cases quote : c = '"'
    · subst quote
      obtain ⟨none, stays⟩ := inside_content more
      exact ⟨(found_outside_quote body).trans none, Or.inr stays⟩
    · rw [show next .outside '\\' = .outside by decide, found_outside_other quote, after_cons]
      simpa [next, quote] using ih

theorem found_last_escape (r : Reading) : r.found ['\\'] = 0 := by
  cases r <;> decide

theorem closes_only_quote (other : c ≠ '"') (r : Reading) : r.closes c = false := by
  simp [closes, other]

theorem found_le_quotes (r : Reading) (cs : List Char) : r.found cs ≤ cs.count '"' := by
  induction cs generalizing r with
  | nil => exact Nat.le_refl 0
  | cons c cs ih =>
    have rest := ih (r.next c)
    rw [found]
    by_cases quote : c = '"'
    · subst quote
      rw [List.count_cons_self]
      split <;> omega
    · rw [closes_only_quote quote, List.count_cons_of_ne quote]
      exact (Nat.zero_add _).trans_le rest

theorem found_without_quotes (none : '"' ∉ xs) (r : Reading) : r.found xs = 0 :=
  Nat.le_zero.mp ((found_le_quotes r xs).trans_eq (List.count_eq_zero.mpr none))

theorem outside_without_quotes (none : '"' ∉ xs) : after .outside xs = .outside := by
  induction xs with
  | nil => rfl
  | cons c xs ih =>
    rw [List.mem_cons, not_or] at none
    rw [after_cons, next, if_neg (Ne.symm none.1), ih none.2]

def owed : Reading → Nat
  | .outside => 0
  | .inside | .escaped => 1

theorem owed_next (other : c ≠ '"') (r : Reading) : (r.next c).owed ≤ r.owed := by
  cases r with
  | outside => simp [next, other]
  | inside =>
    simp only [next, other, if_false]
    split <;> exact Nat.le_refl 1
  | escaped => exact Nat.le_refl 1

theorem closed_or_owed (r : Reading) :
    (if r.closes '"' then 1 else 0) + (r.next '"').owed ≤ r.owed + 1 := by
  cases r <;> decide

/-- Every quote is paid for once: as an opening one, or as the closing one of a literal that was
open. -/
theorem found_and_owed (r : Reading) (cs : List Char) :
    r.found cs + (r.after cs).owed ≤ r.owed + cs.count '"' := by
  induction cs generalizing r with
  | nil => exact (Nat.zero_add _).le
  | cons c cs ih =>
    have rest := ih (r.next c)
    rw [found, after_cons]
    by_cases quote : c = '"'
    · subst quote
      have step := closed_or_owed r
      rw [List.count_cons_self]
      omega
    · have step := owed_next quote r
      rw [closes_only_quote quote, List.count_cons_of_ne quote, if_neg Bool.false_ne_true]
      omega

end Reading

namespace Pattern

open Reading

theorem piece_ordinary {before taken rest : List Char} {c : Char} (escape : c ≠ '\\')
    (quote : c ≠ '"') :
    stringPiece ⟨before, taken, c :: rest⟩ = [⟨before, c :: taken, rest⟩] := by
  simp [stringPiece, oneOf, sequence, char, satisfying, fromEach, escape, quote]

theorem piece_escaped {before taken rest : List Char} {c : Char} (newline : c ≠ '\n') :
    stringPiece ⟨before, taken, '\\' :: c :: rest⟩ = [⟨before, c :: '\\' :: taken, rest⟩] := by
  simp [stringPiece, oneOf, sequence, char, satisfying, fromEach, newline]

/-- On one line the contents of a literal end at a quote, at the end, or at a last backslash. -/
def EndsPieces (tail : List Char) : Prop := (∃ rest, tail = '"' :: rest) ∨ tail = [] ∨ tail = ['\\']

theorem no_more_pieces {before taken tail : List Char} (ends : EndsPieces tail) :
    stringPiece ⟨before, taken, tail⟩ = [] := by
  rcases ends with ⟨rest, rfl⟩ | rfl | rfl <;>
    simp [stringPiece, oneOf, sequence, char, satisfying, fromEach]

/-- Among the places that pieces lead to, this one comes first, and a quote stands before none of
those after it. -/
def LeadFirst (place : Cursor) (places fewer : List Cursor) : Prop :=
  ∃ others, places = place :: (others ++ fewer) ∧
    ∀ other ∈ others, other.ahead.head? ≠ some '"'

theorem one_more_piece {place next last : Cursor} {turns : Nat} {fewer : List Cursor}
    (led : stringPiece place = [next]) (apart : place.ahead.head? ≠ some '"')
    (lead : LeadFirst last (repeated stringPiece turns next (place :: fewer)) (place :: fewer)) :
    LeadFirst last (repeated stringPiece (turns + 1) place fewer) fewer := by
  obtain ⟨others, leads, free⟩ := lead
  refine ⟨others ++ [place], ?_, List.forall_mem_append.mpr
    ⟨free, List.forall_mem_singleton.mpr apart⟩⟩
  rw [repeated, led, List.foldr_cons, List.foldr_nil, leads, List.append_assoc]
  rfl

theorem pieces_lead {before taken held tail : List Char} {turns : Nat} {fewer : List Cursor}
    (content : Content .double held) (ends : EndsPieces tail) (enough : held.length ≤ turns) :
    LeadFirst ⟨before, held.reverse ++ taken, tail⟩
      (repeated stringPiece turns ⟨before, taken, held ++ tail⟩ fewer) fewer := by
  induction content generalizing taken turns fewer with
  | nil => exact ⟨[], repeated_stays (no_more_pieces ends) turns fewer, List.forall_mem_nil _⟩
  | @ordinary c body escape quote newline more ih =>
    obtain ⟨turns, rfl⟩ : ∃ fewer, turns = fewer + 1 := Nat.exists_eq_add_one.mpr (by
      rw [List.length_cons] at enough
      omega)
    rw [List.reverse_cons, List.append_assoc]
    exact one_more_piece (piece_ordinary escape quote) (fun same => quote (Option.some.inj same))
      (ih (Nat.le_of_succ_le_succ enough))
  | @escaped c body newline more ih =>
    obtain ⟨turns, rfl⟩ : ∃ fewer, turns = fewer + 1 := Nat.exists_eq_add_one.mpr (by
      rw [List.length_cons] at enough
      omega)
    rw [List.reverse_cons, List.reverse_cons, List.append_assoc, List.append_assoc]
    refine one_more_piece (piece_escaped newline) (by simp) (ih ?_)
    rw [List.length_cons, List.length_cons] at enough
    omega

theorem literal_leads {before held tail : List Char} (content : Content .double held)
    (ends : EndsPieces tail) : stringLiteral ⟨before, [], '"' :: (held ++ tail)⟩ =
      char '"' ⟨before, held.reverse ++ ['"'], tail⟩ := by
  have enough : held.length ≤ (held ++ tail).length := by simp
  have lead : LeadFirst ⟨before, held.reverse ++ ['"'], tail⟩
      (repeated stringPiece (held ++ tail).length ⟨before, ['"'], held ++ tail⟩ []) [] :=
    pieces_lead content ends enough
  obtain ⟨others, leads, free⟩ := lead
  have none : others.flatMap (char '"') = [] := by
    refine List.flatMap_eq_nil_iff.mpr ?_
    rintro ⟨before, taken, _ | ⟨c, ahead⟩⟩ member
    · rfl
    · have other : c ≠ '"' := by simpa using free _ member
      simp [char, satisfying, other]
  have opened : char '"' ⟨before, [], '"' :: (held ++ tail)⟩ =
      [⟨before, ['"'], held ++ tail⟩] := rfl
  rw [stringLiteral, sequence_cons, opened, List.flatMap_singleton, sequence_cons, many, leads,
    List.append_nil, List.flatMap_cons]
  exact (congrArg _ none).trans (List.append_nil _)

theorem held_on_line {cs : List Char} (inLine : '\n' ∉ cs) :
    ∃ held tail, cs = held ++ tail ∧ Content .double held ∧ EndsPieces tail := by
  obtain ⟨held, tail, body, closed, rest, content, ending, rfl⟩ := literal_ends .double cs
  have atEnd {rest : List Char} (ends : AtLineEnd rest) (inside : rest ⊆ held ++ tail) :
      rest = [] := by
    refine ends.resolve_right ?_
    rintro ⟨after, rfl⟩
    exact inLine (inside List.mem_cons_self)
  refine ⟨held, tail, rfl, content, ?_⟩
  cases ending with
  | quote ahead => exact Or.inl ⟨rest, ahead⟩
  | lineEnd ends => exact Or.inr (Or.inl (atEnd ends (List.subset_append_right held tail)))
  | cutOff ahead ends =>
    subst ahead
    rw [atEnd ends fun c member => by simp [member]]
    exact Or.inr (Or.inr rfl)

theorem no_literal_here {before ahead : List Char} {c : Char} (other : c ≠ '"') :
    matchAt? stringLiteral before (c :: ahead) = none := by
  have none : char '"' ⟨before, [], c :: ahead⟩ = [] := by
    simp [char, satisfying, other]
  rw [matchAt?, stringLiteral, sequence_cons, none]
  rfl

theorem matches_from_readings {before line : List Char} (inLine : '\n' ∉ line) :
    (matchesFrom stringLiteral before 0 line).length = found .outside line := by
  induction size : line.length using Nat.strongRecOn generalizing before line with
  | ind n ih =>
    subst size
    cases line with
    | nil => rfl
    | cons c cs =>
      have inRest : '\n' ∉ cs := fun member => inLine (List.mem_cons_of_mem c member)
      have passed (none : matchAt? stringLiteral before (c :: cs) = none) :
          (matchesFrom stringLiteral before 0 (c :: cs)).length = found .outside cs := by
        rw [matchesFrom, none]
        exact ih cs.length (Nat.lt_succ_self _) inRest rfl
      by_cases quote : c = '"'
      · subst quote
        obtain ⟨held, tail, rfl, content, ends⟩ := held_on_line inRest
        have leads : stringLiteral ⟨before, [], '"' :: (held ++ tail)⟩ =
            char '"' ⟨before, held.reverse ++ ['"'], tail⟩ := literal_leads content ends
        have open' := inside_content content
        rw [found_outside_quote, found_append, open'.1, open'.2, Nat.zero_add]
        rcases ends with ⟨rest, rfl⟩ | last
        · -- The literal is closed, and the search goes on behind it.
          have whole : '"' :: (held ++ '"' :: rest) = '"' :: (held ++ ['"']) ++ rest := by simp
          have here : matchAt? stringLiteral before ('"' :: (held ++ ['"']) ++ rest) =
              some ⟨before, '"' :: (held ++ ['"']), rest⟩ := by
            rw [← whole, matchAt?, leads]
            simp [char, satisfying]
          have inTail : '\n' ∉ rest := fun member => inRest (by simp [member])
          have shorter : rest.length < ('"' :: (held ++ '"' :: rest)).length := by
            simp
            omega
          rw [whole, matches_from_found (by simp) here, List.length_cons,
            ih rest.length shorter inTail rfl, found_inside_quote, Nat.add_comm]
        · -- It is not closed, and neither is what an escaped quote in it would open.
          have none : matchAt? stringLiteral before ('"' :: (held ++ tail)) = none := by
            rw [matchAt?, leads]
            rcases last with rfl | rfl <;> simp [char, satisfying]
          have nothing (r : Reading) : r.found tail = 0 := by
            rcases last with rfl | rfl
            · rfl
            · exact found_last_escape r
          rw [passed none, found_append, (outside_content content).1, nothing, nothing]
      · rw [passed (no_literal_here quote), found_outside_other quote]

theorem string_matches_read {line : List Char} (inLine : '\n' ∉ line) :
    countMatches stringLiteral line = found .outside line := matches_from_readings inLine

end Pattern

end Authorship
