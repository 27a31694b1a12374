import Authorship.Proofs.BraceMatching
import Authorship.Proofs.ByteOffsets
import Authorship.Proofs.FunctionNames
import Authorship.Proofs.TextLines

/-
Where the bodies of functions begin and end. Headers come from one pass over the text and matching
braces from another; a body ends at whichever comes first of its matching brace and the next header,
so that no place of the text is in two bodies.
-/
namespace Authorship

namespace Lexicon

open Pattern

structure HeaderIn (masked : List Char) (h : Header) : Prop where
  begins : h.first ≤ h.brace
  opens : masked[h.brace]? = some '{'

theorem HeaderIn.brace_lt {masked : List Char} {h : Header} (placed : HeaderIn masked h) :
    h.brace < masked.length := (List.getElem?_eq_some_iff.mp placed.opens).1

theorem headers_in (masked : List Char) : ∀ h ∈ headers masked, HeaderIn masked h := by
  intro h member
  obtain ⟨m, found, rfl⟩ := List.mem_map.mp (List.mem_of_mem_filter member)
  have fits := all_matches_fit spells_header m found
  obtain ⟨declared, text⟩ := fits.text_mem spells_header
  refine ⟨by simp [text], ?_⟩
  have place : m.before.length + m.text.length - 1 = (m.before.reverse ++ declared).length := by
    simp [text]
  have split : masked = (m.before.reverse ++ declared) ++ '{' :: m.after := by
    rw [fits.text_eq, text]
    simp
  simp only [place]
  rw [split, List.getElem?_append_right (Nat.le_refl _), Nat.sub_self]
  rfl

theorem headers_apart (masked : List Char) :
    (headers masked).Pairwise fun h h' => h.brace < h'.first := by
  refine .filter _ (List.pairwise_map.mpr ((all_matches_apart spells_header masked).imp_of_mem ?_))
  intro m m' found _ apart
  obtain ⟨declared, text⟩ := (all_matches_fit spells_header m found).text_mem spells_header
  have some : 0 < m.text.length := by simp [text]
  show m.before.length + m.text.length - 1 < m'.before.length
  omega

structure HeadersIn (masked : List Char) (hs : List Header) : Prop where
  placed : ∀ h ∈ hs, HeaderIn masked h
  apart : hs.Pairwise fun h h' => h.brace < h'.first

theorem HeadersIn.tail {masked : List Char} {h : Header} {hs : List Header}
    (inText : HeadersIn masked (h :: hs)) : HeadersIn masked hs :=
  ⟨(List.forall_mem_cons.mp inText.placed).2, (List.pairwise_cons.mp inText.apart).2⟩

theorem found_headers (masked : List Char) : HeadersIn masked (headers masked) :=
  ⟨headers_in masked, headers_apart masked⟩

/-- Where a body ends at the latest: where the next header begins, or the text ends. -/
def limitAfter (masked : List Char) : List Header → Nat
  | [] => masked.length
  | next :: _ => next.first

theorem slice_count_le (text : List Char) (c : Char) {first last start : Nat}
    (from_le : start ≤ first) (to_le : first ≤ last) :
    (slice text first last).count c + (text.drop last).count c ≤ (text.drop start).count c := by
  have split : text.drop first = slice text first last ++ text.drop last := by
    rw [slice, ← Nat.add_sub_of_le to_le, ← List.drop_drop, Nat.add_sub_cancel_left]
    exact (List.take_append_drop _ _).symm
  rw [← List.count_append, ← split, ← Nat.add_sub_of_le from_le, ← List.drop_drop]
  exact (List.drop_sublist _ _).count_le c

structure BodyOf (masked : List Char) (h : Header) (limit : Nat) (d : Definition) : Prop where
  name_eq : d.name = h.name
  first_eq : d.first = h.brace + 1
  first_le : d.first ≤ d.last
  last_le : d.last ≤ limit
  closed : ∀ close < limit, MatchedAt '{' '}' masked h.brace close →
    d.last = close ∧ Balanced '{' '}' (d.body masked)
  unclosed : (∀ close < limit, ¬MatchedAt '{' '}' masked h.brace close) → d.last = limit
  length_pos : 1 ≤ d.length
  length_le : d.length - 1 ≤ (slice masked h.brace d.last).count '\n'

theorem matched_body {masked : List Char} {i j : Nat} (matched : MatchedAt '{' '}' masked i j) :
    i < j ∧ Balanced '{' '}' (slice masked (i + 1) j) := by
  obtain ⟨before, body, after, rfl, balanced, rfl, rfl⟩ := matched
  refine ⟨by omega, ?_⟩
  have same : slice (before ++ '{' :: (body ++ '}' :: after)) (before.length + 1)
      (before.length + 1 + body.length) = body := by
    simp [slice, List.drop_append, List.drop_eq_nil_of_le]
  rwa [same]

theorem trim_end_count_le (cs : List Char) : (Text.trimEnd cs).count '\n' ≤ cs.count '\n' := by
  obtain ⟨blanks, split, -⟩ := Text.trim_end_split cs
  rw [congrArg (List.count '\n') split, List.count_append]
  omega

section

variable {masked : List Char} {h : Header} {limit : Nat}

theorem unclosed_body (beyond : h.brace < limit)
    (missed : ((bracePairs '{' '}' masked).lookup h.brace).filter (· ≤ limit) = none)
    (unmatched : ∀ close < limit, ¬MatchedAt '{' '}' masked h.brace close) :
    BodyOf masked h limit (definitionOf masked (bracePairs '{' '}' masked) limit h) := by
  have last : (definitionOf masked (bracePairs '{' '}' masked) limit h).last = limit := by
    simp [definitionOf, missed]
  have length : (definitionOf masked (bracePairs '{' '}' masked) limit h).length =
      (Text.trimEnd (slice masked h.brace limit)).count '\n' + 1 := by
    simp [definitionOf, missed]
  refine ⟨rfl, rfl, by rw [last]; exact beyond, last.le, ?_, fun _ => last, ?_, ?_⟩
  · exact fun close within matched => absurd matched (unmatched close within)
  · omega
  · rw [length, last]
    exact trim_end_count_le _

theorem closed_body {close : Nat} (within : close ≤ limit)
    (reached : ((bracePairs '{' '}' masked).lookup h.brace).filter (· ≤ limit) = some close)
    (matched : MatchedAt '{' '}' masked h.brace close) :
    BodyOf masked h limit (definitionOf masked (bracePairs '{' '}' masked) limit h) := by
  obtain ⟨after, balanced⟩ := matched_body matched
  have last : (definitionOf masked (bracePairs '{' '}' masked) limit h).last = close := by
    simp [definitionOf, reached]
  have length : (definitionOf masked (bracePairs '{' '}' masked) limit h).length =
      (slice masked h.brace close).count '\n' + 1 := by
    simp [definitionOf, reached]
  refine ⟨rfl, rfl, by rw [last]; exact after, by rwa [last], ?_, ?_, ?_, ?_⟩
  · intro close' _ matched'
    have same := matched_unique (by decide) matched matched'
    exact ⟨last.trans same, by rw [Definition.body, last]; exact balanced⟩
  · intro unmatched
    rw [last]
    by_contra other
    exact unmatched close (by omega) matched
  · omega
  · rw [length, last]
    exact Nat.le_refl _

theorem definition_body (beyond : h.brace < limit) :
    BodyOf masked h limit (definitionOf masked (bracePairs '{' '}' masked) limit h) := by
  have partner {close : Nat} : (bracePairs '{' '}' masked).lookup h.brace = some close ↔
      MatchedAt '{' '}' masked h.brace close := lookup_brace_pairs (by decide)
  cases reached : ((bracePairs '{' '}' masked).lookup h.brace).filter (· ≤ limit) with
  | none =>
    refine unclosed_body beyond reached fun close within matched => ?_
    rw [partner.mpr matched] at reached
    simp at reached
    omega
  | some close =>
    obtain ⟨found, within⟩ := Option.filter_eq_some_iff.mp reached
    exact closed_body (by simpa using within) reached (partner.mp found)

end

/- The bodies of all headers. -/

inductive Bodies (masked : List Char) : List Header → List Definition → Prop where
  | nil : Bodies masked [] []
  | cons {h : Header} {hs : List Header} {d : Definition} {ds : List Definition}
      (first : BodyOf masked h (limitAfter masked hs) d) (rest : Bodies masked hs ds) :
      Bodies masked (h :: hs) (d :: ds)

theorem limit_after_le {masked : List Char} {hs : List Header} (inText : HeadersIn masked hs) :
    limitAfter masked hs ≤ masked.length ∧ ∀ h ∈ hs, limitAfter masked hs ≤ h.brace := by
  obtain ⟨placed, apart⟩ := inText
  cases hs with
  | nil => simp [limitAfter]
  | cons next hs =>
    obtain ⟨first, _⟩ := List.forall_mem_cons.mp placed
    have begins := first.begins
    have inside := first.brace_lt
    refine ⟨by simp only [limitAfter]; omega, List.forall_mem_cons.mpr ⟨begins, ?_⟩⟩
    intro h member
    have later := (placed h (List.mem_cons_of_mem next member)).begins
    have := (List.pairwise_cons.mp apart).1 h member
    simp only [limitAfter]
    omega

theorem brace_before_limit {masked : List Char} {h : Header} {hs : List Header}
    (inText : HeadersIn masked (h :: hs)) : h.brace < limitAfter masked hs := by
  cases hs with
  | nil => exact (inText.placed h List.mem_cons_self).brace_lt
  | cons next hs => exact (List.pairwise_cons.mp inText.apart).1 next List.mem_cons_self

theorem definitions_from_cons (masked : List Char) (pairs : List (Nat × Nat)) (h : Header)
    (hs : List Header) : definitionsFrom masked pairs (h :: hs) =
      definitionOf masked pairs (limitAfter masked hs) h :: definitionsFrom masked pairs hs := by
  cases hs <;> rfl

theorem definitions_from_bodies {masked : List Char} {hs : List Header}
    (inText : HeadersIn masked hs) :
    Bodies masked hs (definitionsFrom masked (bracePairs '{' '}' masked) hs) := by
  induction hs with
  | nil => exact .nil
  | cons h hs ih =>
    rw [definitions_from_cons]
    exact .cons (definition_body (brace_before_limit inText)) (ih inText.tail)

section

variable {masked : List Char} {hs : List Header} {ds : List Definition}

theorem Bodies.of_header (bodies : Bodies masked hs ds) :
    ∀ d ∈ ds, ∃ h ∈ hs, d.first = h.brace + 1 := by
  induction bodies with
  | nil => simp
  | cons first rest ih =>
    refine List.forall_mem_cons.mpr ⟨⟨_, List.mem_cons_self, first.first_eq⟩, ?_⟩
    intro d member
    obtain ⟨h, inside, same⟩ := ih d member
    exact ⟨h, List.mem_cons_of_mem _ inside, same⟩

theorem Bodies.in_text (bodies : Bodies masked hs ds) (inText : HeadersIn masked hs) :
    ∀ d ∈ ds, d.first ≤ d.last ∧ d.last ≤ masked.length := by
  induction bodies with
  | nil => simp
  | @cons h hs d ds first rest ih =>
    have limited := (limit_after_le inText.tail).1
    exact List.forall_mem_cons.mpr
      ⟨⟨first.first_le, first.last_le.trans limited⟩, ih inText.tail⟩

theorem Bodies.apart (bodies : Bodies masked hs ds) (inText : HeadersIn masked hs) :
    ds.Pairwise fun d d' => d.last < d'.first := by
  induction bodies with
  | nil => exact .nil
  | @cons h hs d ds first rest ih =>
    refine .cons ?_ (ih inText.tail)
    intro d' member
    obtain ⟨h', inside, same⟩ := rest.of_header d' member
    have limited := (limit_after_le inText.tail).2 h' inside
    have := first.last_le
    omega

theorem Bodies.lines_le (bodies : Bodies masked hs ds) (inText : HeadersIn masked hs)
    {start : Nat} (later : ∀ h ∈ hs, start ≤ h.brace) :
    (ds.map fun d => d.length - 1).sum ≤ (masked.drop start).count '\n' := by
  induction bodies generalizing start with
  | nil => simp
  | @cons h hs d ds first rest ih =>
    have limited := (limit_after_le inText.tail).2
    have others : (ds.map fun d => d.length - 1).sum ≤ (masked.drop d.last).count '\n' :=
      ih inText.tail fun h' member => first.last_le.trans (limited h' member)
    have own := first.length_le
    have order : h.brace ≤ d.last := by
      have := first.first_eq
      have := first.first_le
      omega
    have parts := slice_count_le masked '\n' (later h List.mem_cons_self) order
    simp only [List.map_cons, List.sum_cons]
    omega

end

/-- Every header has its body, which begins after its brace and goes up to the matching one or to
the next header. The bodies are apart from each other and in the order of the text, by character and
by byte, and the lines that they go over are lines of the text. -/
theorem function_bodies_apart (masked : List Char) :
    Bodies masked (headers masked) (functionDefinitions masked) ∧
      (∀ d ∈ functionDefinitions masked, d.first ≤ d.last ∧ d.last ≤ masked.length ∧
        ∃ brace, masked[brace]? = some '{' ∧ d.first = brace + 1) ∧
      (functionDefinitions masked).Pairwise (fun d d' => d.last < d'.first) ∧
      (∀ d ∈ functionDefinitions masked, (d.byteSpan masked).1 ≤ (d.byteSpan masked).2 ∧
        (d.byteSpan masked).2 ≤ Text.utf8Length masked) ∧
      (functionDefinitions masked).Pairwise
        (fun d d' => (d.byteSpan masked).2 ≤ (d'.byteSpan masked).1) ∧
      ((functionDefinitions masked).map fun d => d.length - 1).sum ≤ masked.count '\n' := by
  have found := found_headers masked
  have bodies : Bodies masked (headers masked) (functionDefinitions masked) :=
    definitions_from_bodies found
  have inText := bodies.in_text found
  have apart := bodies.apart found
  refine ⟨bodies, ?_, apart, ?_, ?_, ?_⟩
  · intro d member
    obtain ⟨h, inside, same⟩ := bodies.of_header d member
    obtain ⟨order, bound⟩ := inText d member
    exact ⟨order, bound, h.brace, (found.placed h inside).opens, same⟩
  · intro d member
    obtain ⟨order, bound⟩ := inText d member
    refine ⟨Text.utf8_length_take_le masked order, ?_⟩
    have whole := Text.utf8_length_take_le masked bound
    rwa [List.take_length] at whole
  · exact apart.imp fun order => Text.utf8_length_take_le masked order.le
  · exact bodies.lines_le found fun h _ => Nat.zero_le h.brace

end Lexicon

end Authorship
