import Authorship.Proofs.BodyTokens
import Authorship.Proofs.CopiedBlocks
import Mathlib.Data.Fintype.Basic
import Mathlib.Data.List.FinRange

/-
What the comparison of functions sees of them. The shape of a body is the same however its names,
numbers and white space are spelled, since other spellings are read as the same kinds of tokens in
the same places. Functions of one shape are counted by a hash of it, and where the hash tells the
shapes apart the count is that of the functions with a twin.
-/
namespace Authorship.Analysis

open Lexicon Pattern Scalar

/-- A name that is no word of the language has another such name in its place, a number another one,
each beginning with an ASCII digit, and white space other white space. -/
inductive Respelled : Piece → Piece → Prop where
  | kept {piece : Piece} : Respelled piece piece
  | name {text text' : List Char} (free : isReserved text = false)
      (fits' : TokenKind.name.Fits text') (free' : isReserved text' = false) :
      Respelled (.token .name text) (.token .name text')
  | number {text text' : List Char} (digit : text.head?.any Char.isDigit = true)
      (fits' : TokenKind.number.Fits text') (digit' : text'.head?.any Char.isDigit = true) :
      Respelled (.token .number text) (.token .number text')
  | blanks {text text' : List Char} (fits' : TokenKind.blanks.Fits text') :
      Respelled (.token .blanks text) (.token .blanks text')

variable {kind : TokenKind} {text : List Char} {c : Char} {piece' : Piece}

theorem not_all_blank (fits : kind.Fits text) (begins : kind.beginsWord = true) :
    text.all Text.isBlank = false := by
  obtain ⟨c, cs, rfl, first⟩ := fits.begun
  have visible : Text.isBlank c = false := by
    have other := more_of_first first .blanks
    rwa [begins] at other
  simp [visible]

theorem abstract_name (fits : TokenKind.name.Fits text) (free : isReserved text = false) :
    abstractToken text = ['I', 'D'] := by
  have visible := not_all_blank fits rfl
  obtain ⟨c, cs, rfl, starts⟩ := fits.begun
  have no_digit : c.isDigit = false := by
    have ascii := ascii_word_is_ascii (name_start_is_word starts)
    have other := name_start_no_digit starts
    rwa [Text.isDecimalDigit, if_pos ascii] at other
  simp [abstractToken, visible, no_digit, free]

theorem abstract_number (fits : TokenKind.number.Fits text)
    (digit : text.head?.any Char.isDigit = true) : abstractToken text = ['N'] := by
  simp [abstractToken, not_all_blank fits rfl, digit]

theorem abstract_blanks (fits : TokenKind.blanks.Fits text) : abstractToken text = [] := by
  have blank : text.all Text.isBlank = true := List.all_eq_true.mpr fits.continues
  simp [abstractToken, blank]

theorem token_respelled (fits : kind.Fits text) (respelled : Respelled (.token kind text) piece') :
    ∃ text', piece' = .token kind text' ∧ kind.Fits text' ∧
      abstractToken text' = abstractToken text := by
  cases respelled with
  | kept => exact ⟨text, rfl, fits, rfl⟩
  | name free fits' free' =>
    exact ⟨_, rfl, fits', by rw [abstract_name fits free, abstract_name fits' free']⟩
  | number digit fits' digit' =>
    exact ⟨_, rfl, fits', by rw [abstract_number fits digit, abstract_number fits' digit']⟩
  | blanks fits' => exact ⟨_, rfl, fits', by rw [abstract_blanks fits, abstract_blanks fits']⟩

theorem other_respelled (respelled : Respelled (.other c) piece') : piece' = .other c := by
  cases respelled
  rfl

variable {inWord : Bool} {pieces pieces' : List Piece}

theorem starts_alike (tokenized : Tokenized inWord pieces)
    (respelled : List.Forall₂ Respelled pieces pieces') (kind : TokenKind) :
    (bodyText pieces').head?.any kind.more = (bodyText pieces).head?.any kind.more := by
  have begins {own : TokenKind} {text : List Char} (fits : own.Fits text) (rest : List Piece) :
      (bodyText (.token own text :: rest)).head?.any kind.more =
        (own.beginsWord == kind.beginsWord) := by
    obtain ⟨c, cs, rfl, first⟩ := fits.begun
    exact more_of_first first kind
  cases tokenized with
  | nil =>
    cases respelled
    rfl
  | token apart fits ends others =>
    cases respelled with
    | cons first rest =>
      obtain ⟨text', rfl, fits', -⟩ := token_respelled fits first
      rw [begins fits', begins fits]
  | other none others =>
    cases respelled with
    | cons first rest =>
      obtain rfl := other_respelled first
      rfl

theorem tokenized_apart (tokenized : Tokenized inWord pieces)
    (apart : (bodyText pieces).head?.any Text.isWord = false) (inWord' : Bool) :
    Tokenized inWord' pieces := by
  cases tokenized with
  | nil => exact .nil
  | @token _ kind text rest alone fits ends others =>
    refine .token (fun begins => ?_) fits ends others
    obtain ⟨c, cs, rfl, first⟩ := fits.begun
    have word : Text.isWord c = true := (word_of_first first).trans begins
    have other : Text.isWord c = false := apart
    rw [word] at other
    cases other
  | @other _ c rest none others =>
    refine .other (fun kind first => ?_) others
    have word : Text.isWord c = true := (word_of_first first).trans (none kind first).1
    have other : Text.isWord c = false := apart
    rw [word] at other
    cases other

/-- What follows a token is read alike after another one of its kind. Only numbers may end in a
word or not, and no word follows them. -/
theorem tokenized_after {text' : List Char} (fits : kind.Fits text) (fits' : kind.Fits text')
    (ends : (bodyText pieces).head?.any kind.more = false)
    (tokenized : Tokenized (endsInWord text) pieces) : Tokenized (endsInWord text') pieces := by
  cases kind with
  | name => exact tokenized_apart tokenized ends _
  | number =>
    refine tokenized_apart tokenized ?_ _
    cases next : (bodyText pieces).head? with
    | none => rfl
    | some c =>
      rw [next] at ends
      simp only [Option.any_some, TokenKind.more, isWordOrDot, Bool.or_eq_false_iff] at ends
      exact ends.1
  | blanks =>
    rw [blank_ends_no_word fits.continues] at tokenized
    rw [blank_ends_no_word fits'.continues]
    exact tokenized

theorem respelled_tokenized (tokenized : Tokenized inWord pieces)
    (respelled : List.Forall₂ Respelled pieces pieces') : Tokenized inWord pieces' := by
  induction tokenized generalizing pieces' with
  | nil =>
    cases respelled
    exact .nil
  | token apart fits ends others ih =>
    cases respelled with
    | cons first rest =>
      obtain ⟨text', rfl, fits', -⟩ := token_respelled fits first
      have ends' := (starts_alike others rest _).trans ends
      exact .token apart fits' ends' (tokenized_after fits fits' ends' (ih rest))
  | other none others ih =>
    cases respelled with
    | cons first rest =>
      obtain rfl := other_respelled first
      exact .other none (ih rest)

theorem respelled_abstraction (tokenized : Tokenized inWord pieces)
    (respelled : List.Forall₂ Respelled pieces pieces') :
    pieces'.flatMap (·.replaced abstractToken) = pieces.flatMap (·.replaced abstractToken) := by
  induction tokenized generalizing pieces' with
  | nil =>
    cases respelled
    rfl
  | token apart fits ends others ih =>
    cases respelled with
    | cons first rest =>
      obtain ⟨text', rfl, -, same⟩ := token_respelled fits first
      rw [List.flatMap_cons, List.flatMap_cons, ih rest, Piece.replaced, Piece.replaced, same]
  | other none others ih =>
    cases respelled with
    | cons first rest =>
      obtain rfl := other_respelled first
      rw [List.flatMap_cons, List.flatMap_cons, ih rest]

theorem shape_of_respelled (tokenized : Tokenized false pieces)
    (respelled : List.Forall₂ Respelled pieces pieces') :
    normalizeBody (bodyText pieces') = normalizeBody (bodyText pieces) := by
  unfold normalizeBody
  rw [body_replaced _ (respelled_tokenized tokenized respelled), body_replaced _ tokenized,
    respelled_abstraction tokenized respelled]

def hashedTwins (hash : List Char → UInt64) (shapes : List (List Char)) : Nat :=
  let hashes := (shapes.filter fun shape => !shape.isEmpty).map hash
  hashes.countP fun h => 1 < hashes.count h

variable {β γ : Type} [BEq β] [LawfulBEq β] [BEq γ] [LawfulBEq γ]

theorem count_of_image {f : β → γ} {xs : List β} {x : β}
    (apart : ∀ y ∈ xs, f y = f x → y = x) : (xs.map f).count (f x) = xs.count x := by
  rw [List.count, List.countP_map, List.count]
  apply List.countP_congr
  intro y member
  simp only [Function.comp_apply, beq_iff_eq]
  exact ⟨apart y member, congrArg f⟩

theorem repeated_in_image {f : β → γ} {xs : List β}
    (apart : ∀ x ∈ xs, ∀ y ∈ xs, f x = f y → x = y) :
    (xs.map f).countP (fun y => 1 < (xs.map f).count y) = xs.countP fun x => 1 < xs.count x := by
  rw [List.countP_map]
  apply List.countP_congr
  intro x member
  have same : (xs.map f).count (f x) = xs.count x :=
    count_of_image fun y other => apart y other x member
  simp only [Function.comp_apply, same]

theorem hashed_twins_eq {hash : List Char → UInt64} {shapes : List (List Char)}
    (apart : ∀ a ∈ shapes, ∀ b ∈ shapes, a ≠ [] → b ≠ [] → hash a = hash b → a = b) :
    hashedTwins hash shapes = twinCount shapes := by
  have mem_filled {shape : List Char} :
      shape ∈ shapes.filter (fun shape => !shape.isEmpty) ↔ shape ∈ shapes ∧ shape ≠ [] := by
    simp [List.mem_filter]
  have told : ∀ a ∈ shapes.filter (fun shape => !shape.isEmpty),
      ∀ b ∈ shapes.filter (fun shape => !shape.isEmpty), hash a = hash b → a = b := by
    intro a first b second
    obtain ⟨first, filled⟩ := mem_filled.mp first
    obtain ⟨second, filled'⟩ := mem_filled.mp second
    exact apart a first b second filled filled'
  rw [hashedTwins, repeated_in_image told, List.countP_filter, twinCount]
  apply List.countP_congr
  intro shape member
  by_cases empty : shape = []
  · simp [empty]
  · have filled : (!shape.isEmpty) = true := by simp [empty]
    have counted : (shapes.filter fun shape => !shape.isEmpty).count shape = shapes.count shape :=
      List.count_filter filled
    rw [counted, Bool.and_comm]

def shapeOf (s : Source.Prepared) (i : Fin s.functions.length) : List Char :=
  normalizeBody (s.functions[i].body s.masked)

def shapes (s : Source.Prepared) : List (List Char) := (List.finRange _).map (shapeOf s)

/-- The functions that have a shape, not an empty one, that another function has. -/
def twins (s : Source.Prepared) : Finset (Fin s.functions.length) :=
  Finset.univ.filter fun i => shapeOf s i ≠ [] ∧ ∃ j, j ≠ i ∧ shapeOf s j = shapeOf s i

theorem shapes_eq (s : Source.Prepared) :
    (s.functions.map fun d => normalizeBody (d.body s.masked)) = shapes s := by
  apply List.ext_getElem
  · simp [shapes]
  · intro i inside inside'
    simp [shapes, shapeOf]

theorem shape_at (s : Source.Prepared) (i : Fin s.functions.length) :
    (shapes s)[i.val]? = some (shapeOf s i) := by
  simp [shapes]

theorem shape_again_iff (s : Source.Prepared) (i : Fin s.functions.length) :
    1 < (shapes s).count (shapeOf s i) ↔ ∃ j, j ≠ i ∧ shapeOf s j = shapeOf s i := by
  rw [count_again_iff (shape_at s i)]
  constructor
  · rintro ⟨place, other, there⟩
    have inside : place < s.functions.length := by
      have within := (List.getElem?_eq_some_iff.mp there).1
      simpa [shapes] using within
    refine ⟨⟨place, inside⟩, fun same => other (congrArg Fin.val same), ?_⟩
    have here := shape_at s ⟨place, inside⟩
    rw [there] at here
    exact (Option.some.inj here).symm
  · rintro ⟨j, other, same⟩
    exact ⟨j, fun equal => other (Fin.ext equal), same ▸ shape_at s j⟩

theorem twin_count_card (s : Source.Prepared) : twinCount (shapes s) = (twins s).card := by
  have told (i : Fin s.functions.length) :
      (!(shapeOf s i).isEmpty && 1 < (shapes s).count (shapeOf s i)) = decide (i ∈ twins s) := by
    rw [Bool.eq_iff_iff]
    simp [twins, shape_again_iff]
  rw [← members_counted _ (List.nodup_finRange _) fun i _ => List.mem_finRange i, twinCount,
    shapes, List.countP_map]
  exact List.countP_congr fun i _ => by rw [← told]; rfl

theorem twins_card_ne_one (s : Source.Prepared) : (twins s).card ≠ 1 := by
  intro one
  obtain ⟨i, alone⟩ := Finset.card_eq_one.mp one
  have member : i ∈ twins s := by simp [alone]
  obtain ⟨-, filled, j, other, same⟩ := Finset.mem_filter.mp member
  have twin : j ∈ twins s :=
    Finset.mem_filter.mpr ⟨Finset.mem_univ j, same ▸ filled, i, other.symm, same.symm⟩
  rw [alone, Finset.mem_singleton] at twin
  exact other twin

theorem ratio_counts_shapes (α : Type) [Scalar α] (s : Source.Prepared) :
    (similarFunctionRatio s : α) = if s.functions.length < 2 then zero
      else perCount (twinCount (shapes s)) s.functions.length := by
  rw [← shapes_eq]
  rfl

/-- Every body is read as tokens and single characters, each token as long as it can be, and the
tokens are what is replaced in it. Its shape stays the same when names, numbers and white space are
spelled otherwise. A hash that tells the shapes of a file apart counts the functions that have a
twin, and so never a single one. -/
theorem shapes_forget_spelling :
    (∀ body, ∃ pieces, Tokenized false pieces ∧ bodyText pieces = body) ∧
      (∀ pieces, Tokenized false pieces →
        (∀ f, replaceAll bodyToken f (bodyText pieces) = pieces.flatMap (·.replaced f)) ∧
          ∀ pieces', List.Forall₂ Respelled pieces pieces' →
            normalizeBody (bodyText pieces') = normalizeBody (bodyText pieces)) ∧
      ∀ (s : Source.Prepared) (hash : List Char → UInt64),
        (∀ i j, shapeOf s i ≠ [] → shapeOf s j ≠ [] →
          hash (shapeOf s i) = hash (shapeOf s j) → shapeOf s i = shapeOf s j) →
        hashedTwins hash (shapes s) = (twins s).card ∧ (twins s).card ≠ 1 ∧
          ∀ (α : Type) [Scalar α], (similarFunctionRatio s : α) =
            if s.functions.length < 2 then zero
            else perCount (hashedTwins hash (shapes s)) s.functions.length := by
  refine ⟨every_body_tokenized false, ?_, ?_⟩
  · intro pieces tokenized
    refine ⟨fun f => body_replaced f tokenized, ?_⟩
    intro pieces' respelled
    exact shape_of_respelled tokenized respelled
  · intro s hash apart
    have told : ∀ a ∈ shapes s, ∀ b ∈ shapes s, a ≠ [] → b ≠ [] → hash a = hash b → a = b := by
      intro a first b second
      obtain ⟨i, -, rfl⟩ := List.mem_map.mp first
      obtain ⟨j, -, rfl⟩ := List.mem_map.mp second
      exact apart i j
    have counted : hashedTwins hash (shapes s) = twinCount (shapes s) := hashed_twins_eq told
    refine ⟨counted.trans (twin_count_card s), twins_card_ne_one s, ?_⟩
    intro α scalar
    rw [counted]
    exact ratio_counts_shapes α s

/-- A statement spelled in two ways, and two functions that differ in a name. The empty one is not
counted, and the hash is XXH3 on the shapes of the others. -/
theorem two_spellings_of_one_shape :
    let pieces := [.token .name "v".toList, .token .blanks " ".toList, .other '+',
      .token .number "1".toList, .other ';']
    let pieces' := [.token .name "total".toList, .token .blanks "\n\t".toList, .other '+',
      .token .number "2.5e3".toList, .other ';']
    let s := Source.prepare
      "int f() \x7b\nv; \x7d\nint g() \x7bw;\x7d\nint h() \x7b 2.5; \x7d\nint k() \x7b\x7d" "t.c"
    let hash : List Char → UInt64 := fun shape =>
      if shape = "ID;".toList then 0xdcf2b78bb280d872 else 0xff4e941c4a6534f8
    normalizeBody (bodyText pieces') = normalizeBody (bodyText pieces) ∧
      hashedTwins hash (shapes s) = (twins s).card ∧ (twins s).card = 2 := by
  intro pieces pieces' s hash
  have tokenized : Tokenized false pieces := by
    refine .token (fun _ => rfl) (by decide) (by decide) ?_
    refine .token (by decide) (by decide) (by decide) ?_
    refine .other (fun kind => by cases kind <;> decide) ?_
    refine .token (fun _ => rfl) (by decide) (by decide) ?_
    exact .other (fun kind => by cases kind <;> decide) .nil
  have respelled : List.Forall₂ Respelled pieces pieces' :=
    .cons (.name (by decide) (by decide) (by decide)) (.cons (.blanks (by decide))
      (.cons .kept (.cons (.number (by decide) (by decide) (by decide)) (.cons .kept .nil))))
  have apart : ∀ i j, shapeOf s i ≠ [] → shapeOf s j ≠ [] →
      hash (shapeOf s i) = hash (shapeOf s j) → shapeOf s i = shapeOf s j := by
    decide +kernel
  have same := (shapes_forget_spelling.2.1 pieces tokenized).2 pieces' respelled
  have counted := (shapes_forget_spelling.2.2 s hash apart).1
  exact ⟨same, counted, by decide +kernel⟩

end Authorship.Analysis
