import Authorship.Proofs.ScanSegments
import Authorship.Source.Prepared

/-
The lines of code of a text. The scanner goes from line to line with one bit, whether it is inside a
block comment, so that two texts joined by a newline are scanned one after the other unless the
first one leaves a block comment open.
-/
namespace Authorship

namespace Text

theorem split_eq (separator : Char) (cs : List Char) :
    splitOn separator cs = cs.splitOn separator := by
  induction cs with
  | nil => rfl
  | cons c cs ih =>
    obtain ⟨piece, more, pieces⟩ :=
      List.exists_cons_of_ne_nil (List.splitOn_ne_nil separator cs)
    rw [splitOn, ih, List.splitOn_cons_eq_if_modifyHead, pieces]
    by_cases same : c = separator <;> simp [same]

theorem split_begins (separator : Char) (cs : List Char) :
    ∃ piece more, splitOn separator cs = piece :: more := by
  rw [split_eq]
  exact List.exists_cons_of_ne_nil (List.splitOn_ne_nil separator cs)

theorem split_separator (separator : Char) (cs : List Char) :
    splitOn separator (separator :: cs) = [] :: splitOn separator cs := by
  simp [split_eq, List.splitOn_cons_eq_if_modifyHead]

theorem split_ordinary {separator c : Char} {cs piece : List Char} {pieces : List (List Char)}
    (other : c ≠ separator) (split : splitOn separator cs = piece :: pieces) :
    splitOn separator (c :: cs) = (c :: piece) :: pieces := by
  simp [splitOn, split, other]

theorem split_length (separator : Char) (cs : List Char) :
    (splitOn separator cs).length = cs.count separator + 1 := by
  induction cs with
  | nil => rfl
  | cons c cs ih =>
    by_cases same : c = separator
    · subst same
      rw [split_separator, List.length_cons, ih, List.count_cons_self]
    · obtain ⟨piece, more, pieces⟩ := split_begins separator cs
      rw [pieces, List.length_cons] at ih
      rw [split_ordinary same pieces, List.length_cons, ih, List.count_cons_of_ne same]

theorem split_snoc {separator c : Char} (other : c ≠ separator) (cs : List Char) :
    ∃ pieces last, splitOn separator cs = pieces ++ [last] ∧
      splitOn separator (cs ++ [c]) = pieces ++ [last ++ [c]] := by
  induction cs with
  | nil => exact ⟨[], [], rfl, by simp [splitOn, other]⟩
  | cons d cs ih =>
    obtain ⟨pieces, last, split, split'⟩ := ih
    by_cases same : d = separator
    · subst same
      refine ⟨[] :: pieces, last, ?_, ?_⟩
      · rw [split_separator, split, List.cons_append]
      · rw [List.cons_append, split_separator, split', List.cons_append]
    · cases pieces with
      | nil => exact ⟨[], d :: last, split_ordinary same split, split_ordinary same split'⟩
      | cons piece more =>
        exact ⟨(d :: piece) :: more, last, split_ordinary same split, split_ordinary same split'⟩

theorem mem_pieces (separator : Char) (cs : List Char) (p : Char → Prop) (free : p separator) :
    (∀ piece ∈ splitOn separator cs, ∀ c ∈ piece, p c) ↔ ∀ c ∈ cs, p c := by
  induction cs with
  | nil => simp [splitOn]
  | cons c cs ih =>
    by_cases same : c = separator
    · subst same
      rw [split_separator]
      simp [ih, free]
    · obtain ⟨piece, more, pieces⟩ := split_begins separator cs
      rw [pieces] at ih
      rw [split_ordinary same pieces]
      simp only [List.forall_mem_cons] at ih ⊢
      rw [and_assoc, ih]

theorem trim_end_snoc {c : Char} (blank : isBlank c = true) (cs : List Char) :
    trimEnd (cs ++ [c]) = trimEnd cs := by
  rw [trimEnd, trimEnd, List.reverse_append]
  simp [blank]

theorem blank_line_snoc {c : Char} (blank : isBlank c = true) (cs : List Char) :
    isBlankLine (cs ++ [c]) = isBlankLine cs := by
  simp [isBlankLine, blank]

theorem last_of_tail {c d : Char} {cs : List Char} (last : (d :: cs).getLast? ≠ some c) :
    cs.getLast? ≠ some c := by
  intro inner
  apply last
  simp [List.getLast?_cons, inner]

theorem returns_append {c : Char} {cs : List Char} (rest : List Char)
    (apart : cs.getLast? ≠ some '\r' ∨ c ≠ '\n') :
    withoutCarriageReturns (cs ++ c :: rest) =
      withoutCarriageReturns cs ++ withoutCarriageReturns (c :: rest) := by
  fun_induction withoutCarriageReturns cs with
  | case1 => rfl
  | case2 cs ih =>
    have apart' := apart.imp_left fun last => last_of_tail (last_of_tail last)
    simp [withoutCarriageReturns, ih apart']
  | case3 d cs other ih =>
    have apart' := apart.imp_left last_of_tail
    rw [List.cons_append, withoutCarriageReturns, ih apart', List.cons_append]
    intro more isReturn next
    subst isReturn
    cases cs with
    | nil => simp_all
    | cons e cs => exact other cs rfl (by simp_all)

end Text

namespace Source

def endsInBlock (inside : Bool) : List Mark → Bool
  | [] => inside
  | m :: marks =>
    match m.role with
    | .blockOpener => endsInBlock true marks
    | .closer => endsInBlock false marks
    | _ => endsInBlock inside marks

/-- A character that never changes what the one before it means. -/
def Neutral (x : Char) : Prop := x ∉ ['/', '*', '\\', '"', '\'']

instance : DecidablePred Neutral := fun x =>
  inferInstanceAs (Decidable (x ∉ ['/', '*', '\\', '"', '\'']))

theorem scan_ordinary {q : Quote} {c : Char} (rest : List Char) (escape : c ≠ '\\')
    (quote : c ≠ q.char) (newline : c ≠ '\n') :
    scan (.literal q) (c :: rest) = ⟨c, .content⟩ :: scan (.literal q) rest :=
  scan_content rest (.ordinary escape quote newline .nil)

theorem scan_quote (q : Quote) (rest : List Char) :
    scan (.literal q) (q.char :: rest) = ⟨q.char, .code⟩ :: scan .code rest := by
  cases q <;> rfl

theorem scan_last_escape (q : Quote) {x : Char} (rest : List Char) (neutral : Neutral x) :
    scan (.literal q) ('\\' :: x :: rest) = ⟨'\\', .content⟩ :: scan (.literal q) (x :: rest) := by
  by_cases newline : x = '\n'
  · subst newline
    simp [scan]
  · have quote : x ≠ q.char := by cases q <;> simp_all [Neutral, Quote.char]
    have escape : x ≠ '\\' := by simp_all [Neutral]
    rw [scan_ordinary rest escape quote newline, scan]
    exact newline

/-- Before a neutral character a text can be cut: what comes before it is scanned as if nothing
followed, and what follows depends on the mode alone. -/
theorem scan_cut (mode : Mode) (cs : List Char) :
    ∃ final : Mode, (final = .blockComment ↔
        endsInBlock (mode = .blockComment) (scan mode cs) = true) ∧
      ∀ x rest, Neutral x →
        scan mode (cs ++ x :: rest) = scan mode cs ++ scan final (x :: rest) := by
  fun_induction scan mode cs
  case case1 mode => exact ⟨mode, by simp [endsInBlock], fun _ _ _ => rfl⟩
  -- In three cases the next character is looked at, and it can be the one after the cut.
  case case7 c cs _ _ _ _ _ ih =>
    obtain ⟨final, block, cut⟩ := ih
    refine ⟨final, by simpa [endsInBlock] using block, fun x rest neutral => ?_⟩
    rw [List.cons_append, scan, cut x rest neutral]
    · rfl
    all_goals cases cs <;> simp_all [Neutral]
  case case12 c cs newline inside ih =>
    obtain ⟨final, block, cut⟩ := ih
    refine ⟨final, by simpa [endsInBlock] using block, fun x rest neutral => ?_⟩
    rw [List.cons_append, scan, cut x rest neutral]
    · rfl
    · exact newline
    · cases cs <;> simp_all [Neutral]
  case case17 q c cs newline _ escape quote ih =>
    by_cases last : c = '\\'
    · cases cs with
      | nil =>
        subst last
        exact ⟨.literal q, by simp [endsInBlock, scan], fun x rest => scan_last_escape q rest⟩
      | cons d cs => exact absurd rfl (escape d cs last)
    · obtain ⟨final, block, cut⟩ := ih
      refine ⟨final, by simpa [endsInBlock] using block, fun x rest neutral => ?_⟩
      rw [List.cons_append, scan_ordinary _ last quote newline, cut x rest neutral]
      rfl
  all_goals
    rename_i ih
    obtain ⟨final, block, cut⟩ := ih
    refine ⟨final, by simpa [endsInBlock] using block, fun x rest neutral => ?_⟩
    simp [scan, scan_quote, cut x rest neutral]

theorem scan_append_newline {cs : List Char} (rest : List Char)
    (closed : endsInBlock false (scan .code cs) = false) :
    scan .code (cs ++ '\n' :: rest) =
      scan .code cs ++ ⟨'\n', .newline false⟩ :: scan .code rest := by
  obtain ⟨final, block, cut⟩ := scan_cut .code cs
  have outside : final ≠ .blockComment := by simpa [closed] using block
  rw [cut '\n' rest (by decide), scan_line_end (Or.inr ⟨rest, rfl⟩) outside, scan]

theorem ends_append (inside : Bool) (marks more : List Mark) :
    endsInBlock inside (marks ++ more) = endsInBlock (endsInBlock inside marks) more := by
  induction marks generalizing inside with
  | nil => rfl
  | cons m marks ih =>
    rw [List.cons_append, endsInBlock, endsInBlock]
    split <;> exact ih _

theorem scan_last_return (cs : List Char) :
    endsInBlock false (scan .code (cs ++ ['\r'])) = endsInBlock false (scan .code cs) ∧
      (codeText (scan .code (cs ++ ['\r'])) = codeText (scan .code cs) ∨
        codeText (scan .code (cs ++ ['\r'])) = codeText (scan .code cs) ++ ['\r']) := by
  obtain ⟨final, -, cut⟩ := scan_cut .code cs
  rw [cut '\r' [] (by decide), ends_append, codeText, codeText, List.filterMap_append]
  cases final with
  | literal q => cases q <;> simp [scan, endsInBlock, codeChar?, Quote.char]
  | _ => simp [scan, endsInBlock, codeChar?]

/- Both views have the same lines, since a literal holds no newline. -/
theorem same_newlines (mode : Mode) (cs : List Char) :
    (codeText (scan mode cs)).count '\n' = (maskedText (scan mode cs)).count '\n' := by
  unfold codeText maskedText
  fun_induction scan mode cs <;>
    simp_all [List.filterMap_cons, codeChar?, maskedChar?]

def nonblankLines (code : List Char) : List (List Char) :=
  ((Text.splitOn '\n' code).filter (!Text.isBlankLine ·)).map Text.trimEnd

def codeOf (text : List Char) : List Char :=
  codeText (scan .code (Text.withoutCarriageReturns text))

theorem zip_kept {ls ms : List (List Char)} (longEnough : ls.length ≤ ms.length) :
    (((ls.zip ms).filter fun (code, _) => !Text.isBlankLine code).map fun (code, masked) =>
        (Text.trimEnd code, Text.trimEnd masked)).map (·.1) =
      (ls.filter (!Text.isBlankLine ·)).map Text.trimEnd := by
  calc _ = (((ls.zip ms).map (·.1)).filter (!Text.isBlankLine ·)).map Text.trimEnd := by
        rw [List.filter_map, List.map_map, List.map_map]
        rfl
    _ = _ := by rw [List.map_fst_zip longEnough]

/- Filtered pairs, of which only the second is looked at afterwards. -/
theorem kept_seconds {β γ : Type} (p : List Char → Bool) (f : β → γ) (lines : List (List Char))
    (others : List β) : ((lines.zip others).filter fun (line, _) => p line).map (f ·.2) =
      (((lines.map p).zip others).filter (·.1)).map (f ·.2) := by
  rw [List.zip_map_left, List.filter_map, List.map_map]
  rfl

theorem code_lines_eq (text filename : String) :
    (prepare text filename).codeLines = nonblankLines (codeOf text.toList) := by
  refine zip_kept (Nat.le_of_eq ?_)
  rw [Text.split_length, Text.split_length, same_newlines]

theorem nonblank_append (code more : List Char) :
    nonblankLines (code ++ '\n' :: more) = nonblankLines code ++ nonblankLines more := by
  simp only [nonblankLines, Text.split_eq, List.splitOn_append_cons_self, List.filter_append,
    List.map_append]

theorem nonblank_last_return (code : List Char) :
    nonblankLines (code ++ ['\r']) = nonblankLines code := by
  have blank : Text.isBlank '\r' = true := by decide
  obtain ⟨pieces, last, split, split'⟩ :=
    Text.split_snoc (show '\r' ≠ '\n' by decide) code
  rw [nonblankLines, nonblankLines, split, split', List.filter_append, List.filter_append]
  by_cases kept : Text.isBlankLine last = true
  · simp [kept, Text.blank_line_snoc blank]
  · simp [kept, Text.blank_line_snoc blank, Text.trim_end_snoc blank]

theorem no_lines_iff (code : List Char) :
    nonblankLines code = [] ↔ ∀ c ∈ code, Text.isBlank c = true := by
  have newline : Text.isBlank '\n' = true := by decide
  rw [← Text.mem_pieces '\n' code _ newline, nonblankLines, List.map_eq_nil_iff,
    List.filter_eq_nil_iff]
  simp [Text.isBlankLine]

/-- The lines of code of two texts on lines of their own are those of the first and then those of
the second. A carriage return that ends the first text belongs to the newline and is no character
of code. -/
theorem lines_of_joined {first : List Char} (second : List Char)
    (closed : endsInBlock false (scan .code (Text.withoutCarriageReturns first)) = false) :
    nonblankLines (codeOf (first ++ '\n' :: second)) =
      nonblankLines (codeOf first) ++ nonblankLines (codeOf second) := by
  -- What remains once the newline is cut off has the same lines of code as the first text.
  have joined (cs : List Char) (closed : endsInBlock false (scan .code cs) = false)
      (returns : Text.withoutCarriageReturns (first ++ '\n' :: second) =
        cs ++ '\n' :: Text.withoutCarriageReturns second) :
      nonblankLines (codeOf (first ++ '\n' :: second)) =
        nonblankLines (codeText (scan .code cs)) ++ nonblankLines (codeOf second) := by
    rw [codeOf, returns, scan_append_newline _ closed, codeText, List.filterMap_append]
    exact nonblank_append _ _
  have newline : Text.withoutCarriageReturns ('\n' :: second) =
      '\n' :: Text.withoutCarriageReturns second := by
    simp [Text.withoutCarriageReturns]
  by_cases last : first.getLast? = some '\r'
  · obtain ⟨start, rfl⟩ := List.getLast?_eq_some_iff.mp last
    have alone : Text.withoutCarriageReturns (start ++ ['\r']) =
        Text.withoutCarriageReturns start ++ ['\r'] :=
      Text.returns_append [] (Or.inr (by decide))
    have together : Text.withoutCarriageReturns (start ++ ['\r'] ++ '\n' :: second) =
        Text.withoutCarriageReturns start ++ '\n' :: Text.withoutCarriageReturns second := by
      rw [List.append_assoc, List.singleton_append, Text.returns_append _ (Or.inr (by decide))]
      simp [Text.withoutCarriageReturns]
    obtain ⟨ends, code | code⟩ := scan_last_return (Text.withoutCarriageReturns start)
    · rw [joined _ (by rw [← ends, ← alone, closed]) together]
      simp only [codeOf]
      rw [alone, code]
    · rw [joined _ (by rw [← ends, ← alone, closed]) together]
      simp only [codeOf]
      rw [alone, code, nonblank_last_return]
  · exact joined _ closed (by rw [Text.returns_append _ (Or.inl last), newline])

end Source

end Authorship
