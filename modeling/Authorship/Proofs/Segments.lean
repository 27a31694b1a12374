import Authorship.Source.Scan

/-
A text cut into whole comments, whole literals and single characters of code. Which cut is right is
said by what each part looks like and by what follows it, without going over the text. Every text
has exactly one such cut.
-/
namespace Authorship.Source

inductive Segment where
  | plain (c : Char)
  | lineComment (body : List Char)
  | blockComment (body : List Char) (closed : Bool)
  | literal (quote : Quote) (body : List Char) (closed : Bool)
deriving DecidableEq, Repr

def blockEnd : List Char := ['*', '/']

def Segment.text : Segment → List Char
  | .plain c => [c]
  | .lineComment body => '/' :: '/' :: body
  | .blockComment body closed => '/' :: '*' :: body ++ if closed then blockEnd else []
  | .literal q body closed => q.char :: body ++ if closed then [q.char] else []

def textOf (segments : List Segment) : List Char := segments.flatMap Segment.text

inductive Opening where
  | plain
  | line
  | block
  | quote (q : Quote)
deriving DecidableEq, Repr

def opening : List Char → Opening
  | '/' :: '/' :: _ => .line
  | '/' :: '*' :: _ => .block
  | '"' :: _ => .quote .double
  | '\'' :: _ => .quote .single
  | _ => .plain

def AtLineEnd (rest : List Char) : Prop := rest = [] ∨ ∃ after, rest = '\n' :: after

/-- Characters that stand for themselves, and backslashes that each take the next character with
them. Neither kind is a newline. -/
inductive Content (q : Quote) : List Char → Prop where
  | nil : Content q []
  | ordinary {c : Char} {body : List Char} (escape : c ≠ '\\') (quote : c ≠ q.char)
      (newline : c ≠ '\n') (more : Content q body) : Content q (c :: body)
  | escaped {c : Char} {body : List Char} (newline : c ≠ '\n') (more : Content q body) :
      Content q ('\\' :: c :: body)

/-- A last backslash with nothing to take stands for itself. -/
def CutOff (q : Quote) (body : List Char) : Prop :=
  Content q body ∨ ∃ held, body = held ++ ['\\'] ∧ Content q held

/-- A closed comment ends with the first closer, which the star of the opener is no part of. -/
def Segment.FitsBefore (rest : List Char) : Segment → Prop
  | .plain c => opening (c :: rest) = .plain
  | .lineComment body => '\n' ∉ body ∧ AtLineEnd rest
  | .blockComment body true => ¬ blockEnd <:+: body ++ ['*']
  | .blockComment body false => ¬ blockEnd <:+: body ∧ rest = []
  | .literal q body true => Content q body
  | .literal q body false => CutOff q body ∧ AtLineEnd rest

def Segmentation : List Segment → Prop
  | [] => True
  | segment :: segments => segment.FitsBefore (textOf segments) ∧ Segmentation segments

theorem text_of_cons (segment : Segment) (segments : List Segment) :
    textOf (segment :: segments) = segment.text ++ textOf segments := rfl

theorem line_end_unique {body body' rest rest' : List Char} (inLine : '\n' ∉ body)
    (inLine' : '\n' ∉ body') (ends : AtLineEnd rest) (ends' : AtLineEnd rest')
    (same : body ++ rest = body' ++ rest') : body = body' ∧ rest = rest' := by
  induction body generalizing body' with
  | nil =>
    cases body' with
    | nil => exact ⟨rfl, same⟩
    | cons c body' =>
      have first : c ≠ '\n' := fun h => inLine' (h ▸ List.mem_cons_self)
      rcases ends with h | ⟨after, h⟩ <;> simp_all
  | cons c body ih =>
    have first : c ≠ '\n' := fun h => inLine (h ▸ List.mem_cons_self)
    cases body' with
    | nil => rcases ends' with h | ⟨after, h⟩ <;> simp_all
    | cons c' body' =>
      simp only [List.cons_append, List.cons.injEq] at same
      have tails := ih (fun h => inLine (List.mem_cons_of_mem c h))
        (fun h => inLine' (List.mem_cons_of_mem c' h)) same.2
      exact ⟨by rw [same.1, tails.1], tails.2⟩

/-- Between a closer and a later one stands nothing if the text up to the later one holds none. -/
theorem no_gap_to_closer {body gap rest rest' : List Char}
    (first : ¬ blockEnd <:+: body ++ gap ++ ['*'])
    (same : blockEnd ++ rest = gap ++ (blockEnd ++ rest')) : gap = [] := by
  match gap with
  | [] => rfl
  | [c] => simp [blockEnd] at same
  | c :: d :: gap =>
    simp only [blockEnd, List.cons_append, List.cons.injEq] at same
    obtain ⟨star, slash, -⟩ := same
    subst star; subst slash
    exact absurd ⟨body, gap ++ ['*'], by simp [blockEnd]⟩ first

theorem first_closer_unique {body body' rest rest' : List Char}
    (first : ¬ blockEnd <:+: body ++ ['*']) (first' : ¬ blockEnd <:+: body' ++ ['*'])
    (same : body ++ (blockEnd ++ rest) = body' ++ (blockEnd ++ rest')) :
    body = body' ∧ rest = rest' := by
  rcases List.append_eq_append_iff.mp same with ⟨gap, h, tails⟩ | ⟨gap, h, tails⟩
  · have none := no_gap_to_closer (h ▸ first') tails
    subst none
    exact ⟨by simpa using h.symm, by simpa using tails⟩
  · have none := no_gap_to_closer (h ▸ first) tails
    subst none
    exact ⟨by simpa using h, by simpa using tails.symm⟩

def Stops (q : Quote) (tail : List Char) : Prop :=
  AtLineEnd tail ∨ (∃ rest, tail = q.char :: rest) ∨ ∃ rest, tail = '\\' :: rest ∧ AtLineEnd rest

theorem quote_is_ordinary (q : Quote) : q.char ≠ '\\' ∧ q.char ≠ '\n' ∧ q.char ≠ '/' := by
  cases q <;> decide

theorem ordinary_goes_on {q : Quote} {c : Char} {rest : List Char} (escape : c ≠ '\\')
    (quote : c ≠ q.char) (newline : c ≠ '\n') : ¬ Stops q (c :: rest) := by
  rintro ((h | ⟨after, h⟩) | ⟨after, h⟩ | ⟨after, h, -⟩) <;> simp_all

theorem escape_goes_on {q : Quote} {c : Char} {rest : List Char} (newline : c ≠ '\n') :
    ¬ Stops q ('\\' :: c :: rest) := by
  rintro ((h | ⟨after, h⟩) | ⟨after, h⟩ | ⟨after, h, ends⟩)
  · simp at h
  · simp at h
  · exact (quote_is_ordinary q).1 (List.cons.inj h).1.symm
  · obtain rfl := (List.cons.inj h).2
    rcases ends with h' | ⟨after', h'⟩ <;> simp_all

theorem content_unique {q : Quote} {held held' tail tail' : List Char} (content : Content q held)
    (content' : Content q held') (stops : Stops q tail) (stops' : Stops q tail')
    (same : held ++ tail = held' ++ tail') : held = held' ∧ tail = tail' := by
  induction content generalizing held' with
  | nil =>
    cases content' with
    | nil => exact ⟨rfl, same⟩
    | ordinary escape quote newline more =>
      exact absurd stops ((show tail = _ from same) ▸ ordinary_goes_on escape quote newline)
    | escaped newline more =>
      exact absurd stops ((show tail = _ from same) ▸ escape_goes_on newline)
  | @ordinary c body escape quote newline more ih =>
    cases content' with
    | nil =>
      exact absurd stops' ((show tail' = _ from same.symm) ▸ ordinary_goes_on escape quote newline)
    | ordinary _ _ _ more' =>
      simp only [List.cons_append, List.cons.injEq] at same
      obtain ⟨h, h'⟩ := ih more' same.2
      exact ⟨by rw [same.1, h], h'⟩
    | escaped _ _ => exact absurd (List.cons.inj same).1 escape
  | @escaped c body newline more ih =>
    cases content' with
    | nil => exact absurd stops' ((show tail' = _ from same.symm) ▸ escape_goes_on newline)
    | ordinary escape _ _ _ => exact absurd (List.cons.inj same).1.symm escape
    | escaped _ more' =>
      simp only [List.cons_append, List.cons.injEq, true_and] at same
      obtain ⟨h, h'⟩ := ih more' same.2
      exact ⟨by rw [same.1, h], h'⟩

theorem content_in_one_line {q : Quote} {body : List Char} (content : Content q body) :
    '\n' ∉ body := by
  induction content with
  | nil => simp
  | ordinary escape quote newline more ih => simp [Ne.symm newline, ih]
  | escaped newline more ih => simp [Ne.symm newline, ih]

theorem literal_in_one_line {q : Quote} {body rest : List Char} {closed : Bool}
    (fits : (Segment.literal q body closed).FitsBefore rest) : '\n' ∉ body := by
  cases closed with
  | true => exact content_in_one_line fits
  | false =>
    obtain ⟨content | ⟨held, rfl, content⟩, -⟩ := fits
    · exact content_in_one_line content
    · simp [content_in_one_line content]

/-- How a literal ends that holds `held` before `tail`: the body that this makes, whether it is
closed, and what follows. -/
inductive LiteralEnd (q : Quote) (held tail : List Char) : List Char → Bool → List Char → Prop where
  | quote {rest : List Char} (ahead : tail = q.char :: rest) : LiteralEnd q held tail held true rest
  | lineEnd (ends : AtLineEnd tail) : LiteralEnd q held tail held false tail
  | cutOff {rest : List Char} (ahead : tail = '\\' :: rest) (ends : AtLineEnd rest) :
      LiteralEnd q held tail (held ++ ['\\']) false rest

theorem literal_end_stops {q : Quote} {held tail body rest : List Char} {closed : Bool}
    (ending : LiteralEnd q held tail body closed rest) : Stops q tail := by
  cases ending with
  | quote ahead => exact Or.inr (Or.inl ⟨rest, ahead⟩)
  | lineEnd ends => exact Or.inl ends
  | cutOff ahead ends => exact Or.inr (Or.inr ⟨rest, ahead, ends⟩)

theorem literal_end_unique {q : Quote} {held tail body body' rest rest' : List Char}
    {closed closed' : Bool} (ending : LiteralEnd q held tail body closed rest)
    (ending' : LiteralEnd q held tail body' closed' rest') :
    body = body' ∧ closed = closed' ∧ rest = rest' := by
  obtain ⟨escape, newline, -⟩ := quote_is_ordinary q
  have escape' := escape.symm
  cases ending <;> cases ending' <;> simp_all [AtLineEnd]

theorem literal_end_longer {q : Quote} {held tail body rest : List Char} {closed : Bool}
    (before : List Char) (ending : LiteralEnd q held tail body closed rest) :
    LiteralEnd q (before ++ held) tail (before ++ body) closed rest := by
  cases ending with
  | quote ahead => exact .quote ahead
  | lineEnd ends => exact .lineEnd ends
  | cutOff ahead ends => exact List.append_assoc before held ['\\'] ▸ .cutOff ahead ends

theorem literal_fits_iff {q : Quote} {body rest : List Char} {closed : Bool} :
    (Segment.literal q body closed).FitsBefore rest ↔
      ∃ held tail, Content q held ∧ LiteralEnd q held tail body closed rest := by
  constructor
  · intro fits
    cases closed with
    | true => exact ⟨body, _, fits, .quote rfl⟩
    | false =>
      obtain ⟨content | ⟨held, rfl, content⟩, ends⟩ := fits
      · exact ⟨body, rest, content, .lineEnd ends⟩
      · exact ⟨held, _, content, .cutOff rfl ends⟩
  · rintro ⟨held, tail, content, ending⟩
    cases ending with
    | quote _ => exact content
    | lineEnd ends => exact ⟨Or.inl content, ends⟩
    | cutOff _ ends => exact ⟨Or.inr ⟨held, rfl, content⟩, ends⟩

theorem literal_text {q : Quote} {held tail body rest : List Char} {closed : Bool}
    (ending : LiteralEnd q held tail body closed rest) :
    (Segment.literal q body closed).text ++ rest = q.char :: (held ++ tail) := by
  cases ending <;> simp_all [Segment.text]

def Segment.opening : Segment → Opening
  | .plain _ => .plain
  | .lineComment _ => .line
  | .blockComment _ _ => .block
  | .literal q _ _ => .quote q

theorem opening_of_quote (q : Quote) (rest : List Char) :
    opening (q.char :: rest) = .quote q := by
  cases q <;> rfl

theorem opening_of_segment {segment : Segment} {rest : List Char}
    (fits : segment.FitsBefore rest) : opening (segment.text ++ rest) = segment.opening := by
  cases segment with
  | plain c => exact fits
  | lineComment body => rfl
  | blockComment body closed => rfl
  | literal q body closed => exact opening_of_quote q _

theorem block_comment_unique {body body' rest rest' : List Char} {closed closed' : Bool}
    (fits : (Segment.blockComment body closed).FitsBefore rest)
    (fits' : (Segment.blockComment body' closed').FitsBefore rest')
    (same : (Segment.blockComment body closed).text ++ rest =
      (Segment.blockComment body' closed').text ++ rest') :
    Segment.blockComment body closed = .blockComment body' closed' ∧ rest = rest' := by
  cases closed with
  | true =>
    cases closed' with
    | true =>
      have tails : body ++ (blockEnd ++ rest) = body' ++ (blockEnd ++ rest') := by
        simpa [Segment.text] using same
      obtain ⟨rfl, rfl⟩ := first_closer_unique fits fits' tails
      exact ⟨rfl, rfl⟩
    | false =>
      have tails : body ++ (blockEnd ++ rest) = body' := by
        simpa [Segment.text, fits'.2] using same
      exact absurd ⟨body, rest, by simpa using tails⟩ fits'.1
  | false =>
    cases closed' with
    | true =>
      have tails : body = body' ++ (blockEnd ++ rest') := by
        simpa [Segment.text, fits.2] using same
      exact absurd ⟨body', rest', by simpa using tails.symm⟩ fits.1
    | false => simpa [Segment.text, fits.2, fits'.2] using same

theorem first_segment_unique {segment segment' : Segment} {rest rest' : List Char}
    (fits : segment.FitsBefore rest) (fits' : segment'.FitsBefore rest')
    (same : segment.text ++ rest = segment'.text ++ rest') : segment = segment' ∧ rest = rest' := by
  have kinds : segment.opening = segment'.opening := by
    rw [← opening_of_segment fits, ← opening_of_segment fits', same]
  cases segment with
  | plain c =>
    cases segment' with
    | plain c' => simpa [Segment.text] using same
    | _ => nomatch kinds
  | lineComment body =>
    cases segment' with
    | lineComment body' =>
      have tails : body ++ rest = body' ++ rest' := by simpa [Segment.text] using same
      obtain ⟨rfl, rfl⟩ := line_end_unique fits.1 fits'.1 fits.2 fits'.2 tails
      exact ⟨rfl, rfl⟩
    | _ => nomatch kinds
  | blockComment body closed =>
    cases segment' with
    | blockComment body' closed' => exact block_comment_unique fits fits' same
    | _ => nomatch kinds
  | literal q body closed =>
    cases segment' with
    | literal q' body' closed' =>
      obtain rfl : q = q' := by injection kinds
      obtain ⟨held, tail, content, ending⟩ := literal_fits_iff.mp fits
      obtain ⟨held', tail', content', ending'⟩ := literal_fits_iff.mp fits'
      rw [literal_text ending, literal_text ending'] at same
      obtain ⟨rfl, rfl⟩ := content_unique content content' (literal_end_stops ending)
        (literal_end_stops ending') (List.cons.inj same).2
      obtain ⟨rfl, rfl, rfl⟩ := literal_end_unique ending ending'
      exact ⟨rfl, rfl⟩
    | _ => nomatch kinds

theorem segment_text_cons (segment : Segment) : ∃ c cs, segment.text = c :: cs := by
  cases segment <;> exact ⟨_, _, rfl⟩

theorem segmentation_unique {segments segments' : List Segment} (fit : Segmentation segments)
    (fit' : Segmentation segments') (same : textOf segments = textOf segments') :
    segments = segments' := by
  induction segments generalizing segments' with
  | nil =>
    cases segments' with
    | nil => rfl
    | cons segment' segments' =>
      obtain ⟨c, cs, h⟩ := segment_text_cons segment'
      simp [textOf, h] at same
  | cons segment segments ih =>
    cases segments' with
    | nil =>
      obtain ⟨c, cs, h⟩ := segment_text_cons segment
      simp [textOf, h] at same
    | cons segment' segments' =>
      obtain ⟨rfl, tails⟩ := first_segment_unique fit.1 fit'.1 same
      rw [ih fit.2 fit'.2 tails]

theorem no_closer_cons (c : Char) (cs : List Char) :
    ¬ blockEnd <:+: c :: cs ↔ ¬ (c = '*' ∧ cs.head? = some '/') ∧ ¬ blockEnd <:+: cs := by
  rw [List.infix_cons_iff, not_or]
  refine and_congr_left fun _ => not_congr ?_
  cases cs <;> simp [blockEnd, List.cons_prefix_cons, eq_comm]

theorem first_closer (cs : List Char) :
    (∃ body rest, cs = body ++ (blockEnd ++ rest) ∧ ¬ blockEnd <:+: body ++ ['*']) ∨
      ¬ blockEnd <:+: cs := by
  induction cs with
  | nil => exact Or.inr (by decide)
  | cons c cs ih =>
    by_cases closer : c = '*' ∧ cs.head? = some '/'
    · obtain ⟨rest, h⟩ := List.head?_eq_some_iff.mp closer.2
      exact Or.inl ⟨[], rest, by simp [closer.1, h, blockEnd], by decide⟩
    · rcases ih with ⟨body, rest, h, first⟩ | none
      · refine Or.inl ⟨c :: body, rest, by simp [h], (no_closer_cons c _).mpr ⟨?_, first⟩⟩
        cases body <;> simp_all [blockEnd]
      · exact Or.inr ((no_closer_cons c cs).mpr ⟨closer, none⟩)

theorem literal_ends (q : Quote) (cs : List Char) : ∃ held tail body closed rest,
    Content q held ∧ LiteralEnd q held tail body closed rest ∧ cs = held ++ tail := by
  match cs with
  | [] => exact ⟨[], [], [], false, [], .nil, .lineEnd (Or.inl rfl), rfl⟩
  | c :: cs =>
    by_cases newline : c = '\n'
    · exact ⟨[], c :: cs, [], false, c :: cs, .nil, .lineEnd (Or.inr ⟨cs, by rw [newline]⟩), rfl⟩
    by_cases quote : c = q.char
    · exact ⟨[], c :: cs, [], true, cs, .nil, .quote (by rw [quote]), rfl⟩
    by_cases escape : c = '\\'
    · subst escape
      match cs with
      | [] => exact ⟨[], ['\\'], ['\\'], false, [], .nil, .cutOff rfl (Or.inl rfl), rfl⟩
      | d :: ds =>
        by_cases lineEnd : d = '\n'
        · exact ⟨[], '\\' :: d :: ds, ['\\'], false, d :: ds, .nil,
            .cutOff rfl (Or.inr ⟨ds, by rw [lineEnd]⟩), rfl⟩
        · obtain ⟨held, tail, body, closed, rest, content, ending, h⟩ := literal_ends q ds
          exact ⟨'\\' :: d :: held, tail, _, closed, rest, .escaped lineEnd content,
            literal_end_longer ['\\', d] ending, by rw [h]; rfl⟩
    · obtain ⟨held, tail, body, closed, rest, content, ending, h⟩ := literal_ends q cs
      exact ⟨c :: held, tail, _, closed, rest, .ordinary escape quote newline content,
        literal_end_longer [c] ending, by rw [h]; rfl⟩
termination_by cs.length

def Opening.sign : Opening → List Char
  | .plain => []
  | .line => ['/', '/']
  | .block => ['/', '*']
  | .quote q => [q.char]

theorem opening_sign (text : List Char) : (opening text).sign <+: text := by
  fun_cases opening text <;> simp [Opening.sign, Quote.char, *]

theorem opened_by {text : List Char} {kind : Opening} (opened : opening text = kind) :
    ∃ after, text = kind.sign ++ after := by
  obtain ⟨after, h⟩ := opening_sign text
  exact ⟨after, by rw [← opened, h]⟩

theorem line_ahead (cs : List Char) :
    ∃ body rest, cs = body ++ rest ∧ '\n' ∉ body ∧ AtLineEnd rest := by
  induction cs with
  | nil => exact ⟨[], [], rfl, by simp, Or.inl rfl⟩
  | cons c cs ih =>
    by_cases newline : c = '\n'
    · exact ⟨[], c :: cs, rfl, by simp, Or.inr ⟨cs, by rw [newline]⟩⟩
    · obtain ⟨body, rest, h, inLine, ends⟩ := ih
      exact ⟨c :: body, rest, by rw [h]; rfl, by simp [Ne.symm newline, inLine], ends⟩

theorem first_segment (c : Char) (cs : List Char) : ∃ (segment : Segment) (rest : List Char),
    segment.FitsBefore rest ∧ segment.text ++ rest = c :: cs := by
  cases kind : opening (c :: cs) with
  | plain => exact ⟨.plain c, cs, kind, rfl⟩
  | line =>
    obtain ⟨after, h⟩ := opened_by kind
    obtain ⟨body, rest, same, inLine, ends⟩ := line_ahead after
    exact ⟨.lineComment body, rest, ⟨inLine, ends⟩, by rw [h, same]; rfl⟩
  | block =>
    obtain ⟨after, h⟩ := opened_by kind
    rcases first_closer after with ⟨body, rest, same, first⟩ | none
    · exact ⟨.blockComment body true, rest, first, by simp [h, same, Segment.text, Opening.sign]⟩
    · exact ⟨.blockComment after false, [], ⟨none, rfl⟩, by simp [h, Segment.text, Opening.sign]⟩
  | quote q =>
    obtain ⟨after, h⟩ := opened_by kind
    obtain ⟨held, tail, body, closed, rest, content, ending, same⟩ := literal_ends q after
    exact ⟨.literal q body closed, rest, literal_fits_iff.mpr ⟨held, tail, content, ending⟩,
      by rw [literal_text ending, h, same]; rfl⟩

theorem every_text_has_a_segmentation (text : List Char) :
    ∃ segments, Segmentation segments ∧ textOf segments = text := by
  induction h : text.length using Nat.strongRecOn generalizing text with
  | ind n ih =>
    cases text with
    | nil => exact ⟨[], trivial, rfl⟩
    | cons c cs =>
      obtain ⟨segment, rest, fits, same⟩ := first_segment c cs
      have shorter : rest.length < n := by
        obtain ⟨d, ds, nonempty⟩ := segment_text_cons segment
        rw [← h, ← same, nonempty, List.length_append, List.length_cons]
        omega
      obtain ⟨segments, fit, more⟩ := ih rest.length shorter rest rfl
      exact ⟨segment :: segments, ⟨more ▸ fits, fit⟩, by rw [text_of_cons, more, same]⟩

end Authorship.Source
