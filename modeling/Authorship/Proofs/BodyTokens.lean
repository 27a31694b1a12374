import Authorship.Analysis.Redundancy
import Authorship.Proofs.DeclaratorLists

/-
What a function's body consists of: names, numbers and white space, each as long as it can be, and
single characters between them. The search for tokens finds these and no others.
-/
namespace Authorship.Analysis

open Lexicon Pattern

inductive TokenKind where
  | name
  | number
  | blanks
deriving DecidableEq, Repr

namespace TokenKind

def first : TokenKind → Char → Bool
  | name => Text.isNameStart
  | number => Text.isDecimalDigit
  | blanks => Text.isBlank

def more : TokenKind → Char → Bool
  | name => Text.isWord
  | number => isWordOrDot
  | blanks => Text.isBlank

def beginsWord : TokenKind → Bool
  | name | number => true
  | blanks => false

structure Fits (kind : TokenKind) (cs : List Char) : Prop where
  begins : cs.head?.any kind.first = true
  continues : ∀ c ∈ cs, kind.more c = true

instance (kind : TokenKind) : DecidablePred kind.Fits := fun cs =>
  decidable_of_iff (cs.head?.any kind.first = true ∧ cs.all kind.more = true)
    ⟨fun ⟨begins, continues⟩ => ⟨begins, List.all_eq_true.mp continues⟩,
      fun fits => ⟨fits.begins, List.all_eq_true.mpr fits.continues⟩⟩

theorem Fits.begun {kind : TokenKind} {text : List Char} (fits : kind.Fits text) :
    ∃ c cs, text = c :: cs ∧ kind.first c = true := by
  cases text with
  | nil => cases fits.begins
  | cons c cs => exact ⟨c, cs, rfl, by simpa using fits.begins⟩

theorem Fits.nonempty {kind : TokenKind} {text : List Char} (fits : kind.Fits text) :
    text ≠ [] := by
  rintro rfl
  cases fits.begins

end TokenKind

inductive Piece where
  | token (kind : TokenKind) (text : List Char)
  | other (c : Char)
deriving DecidableEq, Repr

def Piece.text : Piece → List Char
  | .token _ text => text
  | .other c => [c]

def bodyText (pieces : List Piece) : List Char := pieces.flatMap Piece.text

/-- These pieces are what a text is read as where it does or does not go on from a word. -/
inductive Tokenized : Bool → List Piece → Prop where
  | nil {inWord : Bool} : Tokenized inWord []
  | token {inWord : Bool} {kind : TokenKind} {text : List Char} {rest : List Piece}
      (apart : kind.beginsWord = true → inWord = false) (fits : kind.Fits text)
      (ends : (bodyText rest).head?.any kind.more = false)
      (others : Tokenized (endsInWord text) rest) : Tokenized inWord (.token kind text :: rest)
  | other {inWord : Bool} {c : Char} {rest : List Piece}
      (none : ∀ kind : TokenKind, kind.first c = true → kind.beginsWord = true ∧ inWord = true)
      (others : Tokenized (Text.isWord c) rest) : Tokenized inWord (.other c :: rest)

variable {c : Char} {kind : TokenKind}

theorem name_start_word (starts : Text.isNameStart c = true) : Text.isWord c = true :=
  ascii_word_is_word (name_start_is_word starts)

theorem digit_word (digit : Text.isDecimalDigit c = true) : Text.isWord c = true := by
  unfold Text.isDecimalDigit at digit
  unfold Text.isWord
  split
  · rename_i ascii
    rw [if_pos ascii] at digit
    simp [Char.isAlphanum, digit]
  · rename_i wide
    rw [if_neg wide] at digit
    simp [digit]

theorem name_start_no_digit (starts : Text.isNameStart c = true) :
    Text.isDecimalDigit c = false := by
  have table : ∀ point < 128, Text.isNameStart (Char.ofNat point) = true →
      Text.isDecimalDigit (Char.ofNat point) = false := by decide
  have ascii := ascii_word_is_ascii (name_start_is_word starts)
  have here := table c.toNat ascii
  rw [Char.ofNat_toNat] at here
  exact here starts

theorem blank_no_word_or_dot (blank : Text.isBlank c = true) : isWordOrDot c = false := by
  have dot : c ≠ '.' := by
    rintro rfl
    cases blank
  simp [isWordOrDot, Text.blank_not_word blank, dot]

theorem word_no_blank (word : Text.isWord c = true) : Text.isBlank c = false := by
  refine Bool.eq_false_iff.mpr fun blank => ?_
  rw [Text.blank_not_word blank] at word
  cases word

/-- What a token can go on with tells white space from the other two, and no more. -/
theorem more_of_first (begins : kind.first c = true) (other : TokenKind) :
    other.more c = (kind.beginsWord == other.beginsWord) := by
  have wordly (word : Text.isWord c = true) : other.more c = other.beginsWord := by
    cases other with
    | name => exact word
    | number => simp [TokenKind.more, isWordOrDot, word, TokenKind.beginsWord]
    | blanks => exact word_no_blank word
  cases kind with
  | name =>
    rw [wordly (name_start_word begins)]
    simp [TokenKind.beginsWord]
  | number =>
    rw [wordly (digit_word begins)]
    simp [TokenKind.beginsWord]
  | blanks =>
    cases other with
    | name => exact Text.blank_not_word begins
    | number => exact blank_no_word_or_dot begins
    | blanks => exact begins

theorem first_is_more (begins : kind.first c = true) : kind.more c = true := by
  rw [more_of_first begins, beq_self_eq_true]

theorem word_of_first (begins : kind.first c = true) : Text.isWord c = kind.beginsWord := by
  have word : TokenKind.name.more c = (kind.beginsWord == true) := more_of_first begins .name
  rwa [beq_true] at word

theorem same_kind {kind' : TokenKind} (begins : kind.first c = true)
    (begins' : kind'.first c = true) : kind = kind' := by
  have same : (kind.beginsWord == kind'.beginsWord) = true := by
    rw [← more_of_first begins kind']
    exact first_is_more begins'
  cases kind with
  | name =>
    cases kind' with
    | name => rfl
    | number =>
      rw [TokenKind.first, name_start_no_digit begins] at begins'
      cases begins'
    | blanks => cases same
  | number =>
    cases kind' with
    | name =>
      rw [TokenKind.first, name_start_no_digit begins'] at begins
      cases begins
    | number => rfl
    | blanks => cases same
  | blanks =>
    cases kind' with
    | name | number => cases same
    | blanks => rfl

variable {a b : Cursor} {before ahead rest text : List Char}

def TokenKind.pattern : TokenKind → Pattern
  | .name => identifier
  | .number => sequence [boundary, satisfying Text.isDecimalDigit, span isWordOrDot]
  | .blanks => blanks1

theorem mem_body_token : b ∈ bodyToken a ↔ ∃ kind : TokenKind, b ∈ kind.pattern a := by
  rw [bodyToken, mem_one_of]
  constructor
  · rintro ⟨p, member, led⟩
    simp only [List.mem_cons, List.not_mem_nil, or_false] at member
    rcases member with rfl | rfl | rfl
    · exact ⟨.name, led⟩
    · exact ⟨.number, led⟩
    · exact ⟨.blanks, led⟩
  · rintro ⟨kind, led⟩
    cases kind with
    | name => exact ⟨_, List.mem_cons_self, led⟩
    | number => exact ⟨_, List.mem_cons_of_mem _ List.mem_cons_self, led⟩
    | blanks => exact ⟨_, List.mem_cons_of_mem _ (List.mem_cons_of_mem _ List.mem_cons_self), led⟩

/-- What a pattern takes that is made of the first character and the run after it. -/
structure Takes (kind : TokenKind) (a : Cursor) (text : List Char) (b : Cursor) : Prop where
  fits : kind.Fits text
  reads : a.Reads text b
  ends : b.ahead.head?.any kind.more = false

theorem mem_first_and_more (kind : TokenKind) :
    b ∈ sequence [satisfying kind.first, span kind.more] a ↔ ∃ text, Takes kind a text b := by
  constructor
  · intro led
    obtain ⟨between, first, led⟩ := mem_sequence_cons.mp led
    obtain ⟨c, begins, read⟩ := mem_satisfying.mp first
    obtain ⟨cs, more, read', ends⟩ := mem_span.mp led
    refine ⟨[c] ++ cs, ⟨?_, ?_⟩, read.append read', ends⟩
    · simpa using begins
    · exact List.forall_mem_cons.mpr ⟨first_is_more begins, more⟩
  · rintro ⟨text, fits, read, ends⟩
    obtain ⟨c, cs, rfl, begins⟩ := fits.begun
    have more := (List.forall_mem_cons.mp fits.continues).2
    refine mem_sequence_cons.mpr ⟨⟨a.before, c :: a.taken, cs ++ b.ahead⟩, ?_, ?_⟩
    · exact mem_satisfying.mpr ⟨c, begins, rfl, rfl, read.ahead⟩
    · refine mem_span.mpr ⟨cs, more, ⟨read.before, ?_, rfl⟩, ends⟩
      simp [read.taken]

theorem boundary_of_takes (begins : kind.beginsWord = true)
    (takes : Takes kind ⟨before, [], ahead⟩ text b) :
    ⟨before, [], ahead⟩ ∈ boundary ⟨before, [], ahead⟩ ↔
      before.head?.any Text.isWord = false := by
  obtain ⟨c, cs, rfl, first⟩ := takes.fits.begun
  have word : Text.isWord c = true := (word_of_first first).trans begins
  have within : ahead.head?.any Text.isWord = true := by
    rw [show ahead = (c :: cs) ++ b.ahead from takes.reads.ahead]
    simpa using word
  rw [mem_boundary]
  simp [within]

theorem boundary_after_name (takes : Takes .name ⟨before, [], ahead⟩ text b) : b ∈ boundary b := by
  have last : (b.taken ++ b.before).head?.any Text.isWord = true := by
    rw [takes.reads.taken, List.append_nil]
    obtain ⟨c, cs, reversed⟩ :=
      List.exists_cons_of_ne_nil (List.reverse_ne_nil_iff.mpr takes.fits.nonempty)
    have member : c ∈ text := by
      rw [← List.mem_reverse, reversed]
      exact List.mem_cons_self
    rw [reversed]
    exact takes.fits.continues c member
  have apart : b.ahead.head?.any Text.isWord = false := takes.ends
  rw [mem_boundary, last, apart]
  simp

theorem mem_pattern : b ∈ kind.pattern ⟨before, [], ahead⟩ ↔
    (kind.beginsWord = true → before.head?.any Text.isWord = false) ∧
      ∃ text, Takes kind ⟨before, [], ahead⟩ text b := by
  cases kind with
  | name =>
    constructor
    · intro led
      obtain ⟨start, bound, led⟩ := mem_sequence_cons.mp led
      obtain rfl := boundary_stays bound
      obtain ⟨stop, named, led⟩ := mem_sequence_cons.mp led
      obtain rfl := boundary_stays led
      obtain ⟨text, takes⟩ := (mem_first_and_more .name).mp named
      exact ⟨fun _ => (boundary_of_takes rfl takes).mp bound, text, takes⟩
    · rintro ⟨apart, text, takes⟩
      refine mem_sequence_cons.mpr ⟨_, (boundary_of_takes rfl takes).mpr (apart rfl), ?_⟩
      refine mem_sequence_cons.mpr ⟨b, (mem_first_and_more .name).mpr ⟨text, takes⟩, ?_⟩
      exact boundary_after_name takes
  | number =>
    constructor
    · intro led
      obtain ⟨start, bound, led⟩ := mem_sequence_cons.mp led
      obtain rfl := boundary_stays bound
      obtain ⟨text, takes⟩ := (mem_first_and_more .number).mp led
      exact ⟨fun _ => (boundary_of_takes rfl takes).mp bound, text, takes⟩
    · rintro ⟨apart, text, takes⟩
      refine mem_sequence_cons.mpr ⟨_, (boundary_of_takes rfl takes).mpr (apart rfl), ?_⟩
      exact (mem_first_and_more .number).mpr ⟨text, takes⟩
  | blanks =>
    constructor
    · intro led
      exact ⟨fun begins => (nomatch begins), (mem_first_and_more .blanks).mp led⟩
    · rintro ⟨-, taken⟩
      exact (mem_first_and_more .blanks).mpr taken

theorem takes_unique {kind' : TokenKind} {text' : List Char} {b' : Cursor}
    (takes : Takes kind a text b) (takes' : Takes kind' a text' b') : b = b' := by
  obtain ⟨c, cs, rfl, begins⟩ := takes.fits.begun
  obtain ⟨c', cs', rfl, begins'⟩ := takes'.fits.begun
  have same : (c :: cs) ++ b.ahead = (c' :: cs') ++ b'.ahead :=
    takes.reads.ahead.symm.trans takes'.reads.ahead
  obtain rfl : c = c' := (List.cons.inj same).1
  obtain rfl := same_kind begins begins'
  have text : c :: cs = c :: cs' := by
    rw [← take_run takes.fits.continues takes.ends, same,
      take_run takes'.fits.continues takes'.ends]
  have read := takes'.reads
  rw [← text] at read
  exact takes.reads.unique read

theorem token_found (apart : kind.beginsWord = true → before.head?.any Text.isWord = false)
    (fits : kind.Fits text) (ends : rest.head?.any kind.more = false) :
    matchAt? bodyToken before (text ++ rest) = some ⟨before, text, rest⟩ := by
  have takes : Takes kind ⟨before, [], text ++ rest⟩ text ⟨before, text.reverse, rest⟩ :=
    ⟨fits, ⟨rfl, (List.append_nil _).symm, rfl⟩, ends⟩
  have led : ⟨before, text.reverse, rest⟩ ∈ bodyToken ⟨before, [], text ++ rest⟩ :=
    mem_body_token.mpr ⟨kind, mem_pattern.mpr ⟨apart, text, takes⟩⟩
  have only : ∀ place ∈ bodyToken ⟨before, [], text ++ rest⟩,
      place = ⟨before, text.reverse, rest⟩ := by
    intro place led
    obtain ⟨kind', led⟩ := mem_body_token.mp led
    obtain ⟨-, text', takes'⟩ := mem_pattern.mp led
    exact (takes_unique takes takes').symm
  obtain ⟨others, places⟩ := first_of_all only led
  rw [matchAt?, places]
  simp

theorem no_token_found
    (none : ∀ kind : TokenKind, kind.first c = true →
      kind.beginsWord = true ∧ before.head?.any Text.isWord = true) :
    matchAt? bodyToken before (c :: ahead) = Option.none := by
  have nowhere : bodyToken ⟨before, [], c :: ahead⟩ = [] := by
    refine List.eq_nil_iff_forall_not_mem.mpr fun place led => ?_
    obtain ⟨kind, led⟩ := mem_body_token.mp led
    obtain ⟨apart, text, takes⟩ := mem_pattern.mp led
    obtain ⟨d, cs, rfl, begins⟩ := takes.fits.begun
    have same : c :: ahead = (d :: cs) ++ place.ahead := takes.reads.ahead
    obtain rfl : c = d := (List.cons.inj same).1
    obtain ⟨word, within⟩ := none kind begins
    rw [apart word] at within
    cases within
  rw [matchAt?, nowhere]
  rfl

variable {inWord : Bool} {pieces : List Piece}

def Piece.replaced (f : List Char → List Char) : Piece → List Char
  | .token _ text => f text
  | .other c => [c]

theorem pieces_replaced (f : List Char → List Char) (tokenized : Tokenized inWord pieces)
    (before : List Char) (here : before.head?.any Text.isWord = inWord) :
    replaceFrom bodyToken f before 0 (bodyText pieces) = pieces.flatMap (·.replaced f) := by
  induction tokenized generalizing before with
  | nil => rfl
  | @token inWord kind text rest apart fits ends others ih =>
    have alone : kind.beginsWord = true → before.head?.any Text.isWord = false := by
      intro begins
      rw [here]
      exact apart begins
    have next : (text.reverse ++ before).head?.any Text.isWord = endsInWord text := by
      obtain ⟨c, cs, reversed⟩ :=
        List.exists_cons_of_ne_nil (List.reverse_ne_nil_iff.mpr fits.nonempty)
      rw [← List.reverse_reverse text, ends_in_word_reverse, reversed]
      simp
    have here : bodyText (.token kind text :: rest) = text ++ bodyText rest := rfl
    rw [here, replace_from_found f fits.nonempty (token_found alone fits ends), ih _ next]
    rfl
  | @other inWord c rest none others ih =>
    have missing : matchAt? bodyToken before (c :: bodyText rest) = Option.none := by
      apply no_token_found
      rw [here]
      exact none
    have next : (c :: before).head?.any Text.isWord = Text.isWord c := rfl
    have here : bodyText (.other c :: rest) = c :: bodyText rest := rfl
    rw [here, replace_from_none f missing, ih _ next]
    rfl

theorem body_replaced (f : List Char → List Char) (tokenized : Tokenized false pieces) :
    replaceAll bodyToken f (bodyText pieces) = pieces.flatMap (·.replaced f) :=
  pieces_replaced f tokenized [] rfl

theorem run_of (q : Char → Bool) (cs : List Char) :
    ∃ run rest, cs = run ++ rest ∧ (∀ c ∈ run, q c = true) ∧ rest.head?.any q = false := by
  refine ⟨cs.takeWhile q, cs.dropWhile q, List.takeWhile_append_dropWhile.symm,
    fun c member => List.mem_takeWhile_imp member, ?_⟩
  have ends := List.head?_dropWhile_not q cs
  cases first : (cs.dropWhile q).head? with
  | none => rfl
  | some c =>
    rw [first] at ends
    simpa using ends

theorem every_body_tokenized (inWord : Bool) (body : List Char) :
    ∃ pieces, Tokenized inWord pieces ∧ bodyText pieces = body := by
  induction h : body.length using Nat.strongRecOn generalizing inWord body with
  | ind n ih =>
    cases body with
    | nil => exact ⟨[], .nil, rfl⟩
    | cons c cs =>
      rw [List.length_cons] at h
      by_cases begun : ∃ kind : TokenKind, kind.first c = true ∧
          (kind.beginsWord = true → inWord = false)
      · obtain ⟨kind, begins, apart⟩ := begun
        obtain ⟨run, rest, rfl, more, ends⟩ := run_of kind.more cs
        have shorter : rest.length < n := by
          rw [List.length_append] at h
          omega
        obtain ⟨pieces, tokenized, rfl⟩ := ih _ shorter (endsInWord (c :: run)) rest rfl
        have fits : kind.Fits (c :: run) :=
          ⟨by simpa using begins, List.forall_mem_cons.mpr ⟨first_is_more begins, more⟩⟩
        exact ⟨.token kind (c :: run) :: pieces, .token apart fits ends tokenized, rfl⟩
      · have none : ∀ kind : TokenKind, kind.first c = true →
            kind.beginsWord = true ∧ inWord = true := by
          intro kind begins
          by_contra other
          refine begun ⟨kind, begins, fun word => ?_⟩
          simpa [word] using other
        obtain ⟨pieces, tokenized, rfl⟩ := ih cs.length (by omega) (Text.isWord c) cs rfl
        exact ⟨.other c :: pieces, .other none tokenized, rfl⟩

end Authorship.Analysis
