import Authorship.Proofs.CommentedLines
import Authorship.Proofs.LiteralContents
import Authorship.Proofs.PreparedAgain
import Authorship.Proofs.StringMatches

/-
String literals as they are counted and as the scanner takes them. The pattern is matched against
lines on which character literals still hold what they hold, so that a double quote in one of them
opens or closes a match. It finds every literal that the scanner opens and closes, and for each
double quote in a character literal it can find one more. On the masked lines it would find no more.
-/
namespace Authorship

open Analysis Pattern Source Reading

namespace Source

def Segment.isClosedString : Segment → Bool
  | .literal .double _ true => true
  | _ => false

def Segment.closedCount (segment : Segment) : Nat := if segment.isClosedString then 1 else 0

/-- Double quotes in a character literal, where they open nothing. -/
def Segment.hiddenQuotes : Segment → Nat
  | .literal .single body _ => body.count '"'
  | _ => 0

def closedStrings (cut : List Segment) : Nat := cut.countP Segment.isClosedString

def hiddenQuotes (cut : List Segment) : Nat := sumOf (cut.map Segment.hiddenQuotes)

variable {segment : Segment} {cut : List Segment} {body : List Char}

theorem closed_strings_cons (segment : Segment) (cut : List Segment) :
    closedStrings (segment :: cut) = closedStrings cut + segment.closedCount := List.countP_cons

theorem hidden_quotes_cons (segment : Segment) (cut : List Segment) :
    hiddenQuotes (segment :: cut) = segment.hiddenQuotes + hiddenQuotes cut := rfl

theorem nothing_hidden (none : ∀ segment ∈ cut, segment.hiddenQuotes = 0) :
    hiddenQuotes cut = 0 := by
  induction cut with
  | nil => rfl
  | cons segment cut ih =>
    obtain ⟨first, rest⟩ := List.forall_mem_cons.mp none
    rw [hidden_quotes_cons, first, ih rest]

structure CodeLine (cut : List Segment) : Prop where
  fit : Segmentation cut
  noComment : ∀ segment ∈ cut, segment.isComment = false
  inLine : '\n' ∉ textOf cut

theorem CodeLine.tail (line : CodeLine (segment :: cut)) : CodeLine cut where
  fit := line.fit.2
  noComment := (List.forall_mem_cons.mp line.noComment).2
  inLine member := line.inLine (List.mem_append_right _ member)

theorem code_line_of_bare {line : List Char} (fit : Segmentation cut) (whole : textOf cut = line)
    (inLine : '\n' ∉ line) (bare : Bare line) : CodeLine cut := by
  subst whole
  refine ⟨fit, ?_, inLine⟩
  intro segment member
  have kept {m : Mark} (inside : m ∈ segment.marks) : codeMark? m = some m := by
    apply bare m
    rw [scan_segments fit]
    exact List.mem_flatMap.mpr ⟨segment, member, inside⟩
  cases segment with
  | plain c => rfl
  | literal q body closed => rfl
  | lineComment body =>
    have opener := kept (m := ⟨'/', .lineOpener⟩) (by simp [Segment.marks])
    cases opener
  | blockComment body closed =>
    have opener := kept (m := ⟨'/', .blockOpener⟩) (by simp [Segment.marks])
    cases opener

theorem nothing_follows {q : Quote} (line : CodeLine (.literal q body false :: cut)) :
    cut = [] := by
  rcases line.fit.1.2 with none | ⟨after, newline⟩
  · cases cut with
    | nil => rfl
    | cons segment cut =>
      obtain ⟨c, cs, first⟩ := segment_text_cons segment
      simp [text_of_cons, first] at none
  · refine absurd ?_ line.tail.inLine
    rw [newline]
    exact List.mem_cons_self

theorem plain_no_quote {c : Char} {rest : List Char} (plain : opening (c :: rest) = .plain) :
    c ≠ '"' := ((plain_iff c rest).mp plain).1

/- Segments as the pattern reads them. -/

/-- Coming to a segment in some state, the pattern finds the literal that is closed there, and no
more for it, for hidden quotes and for a literal that is open already than it leaves behind open. -/
structure Segment.ReadFrom (segment : Segment) (r : Reading) : Prop where
  least : segment.closedCount ≤ r.found segment.text
  most : r.found segment.text + (r.after segment.text).owed ≤
    r.owed + (segment.closedCount + segment.hiddenQuotes)

/-- Outside of string literals every quote is hidden. -/
theorem read_outside_strings (r : Reading) (none : segment.isClosedString = false)
    (hidden : segment.text.count '"' = segment.hiddenQuotes) : segment.ReadFrom r := by
  have paid := found_and_owed r segment.text
  constructor <;> rw [Segment.closedCount, none, if_neg Bool.false_ne_true]
  · exact Nat.zero_le _
  · omega

theorem closed_string_read (r : Reading) (content : Content .double body) :
    (Segment.literal .double body true).ReadFrom r := by
  obtain ⟨none, stays⟩ := inside_content content
  have text : (Segment.literal .double body true).text = '"' :: (body ++ ['"']) := rfl
  -- Behind the first quote the pattern is in a literal, or it has just left one.
  have opened : found .inside (body ++ ['"']) = 1 ∧ after .inside (body ++ ['"']) = .outside := by
    rw [found_append, after_append, none, stays]
    exact ⟨rfl, rfl⟩
  have left : found .outside (body ++ ['"']) + (after .outside (body ++ ['"'])).owed = 1 := by
    rw [found_append, (outside_content content).1, after_append]
    rcases (outside_content content).2 with state | state <;> rw [state] <;> rfl
  constructor
  · change 1 ≤ r.found _
    cases r <;> rw [text]
    · rw [found_outside_quote, opened.1]
    · rw [found_inside_quote]
      exact Nat.le_add_right 1 _
    · rw [found_escaped, opened.1]
  · change _ ≤ r.owed + 1
    cases r <;> rw [text, after_cons]
    · rw [found_outside_quote, show next .outside '"' = .inside from rfl, opened.1, opened.2]
      rfl
    · rw [found_inside_quote, show next .inside '"' = .outside from rfl, Nat.add_assoc, left]
      rfl
    · rw [found_escaped, show next .escaped '"' = .inside from rfl, opened.1, opened.2]
      decide

theorem cut_off_found (cut : CutOff .double body) :
    found .inside body = 0 ∧ found .outside body = 0 := by
  rcases cut with content | ⟨held, rfl, content⟩
  · exact ⟨(inside_content content).1, (outside_content content).1⟩
  · rw [found_append, found_append, (inside_content content).1, (outside_content content).1,
      found_last_escape, found_last_escape]
    exact ⟨rfl, rfl⟩

theorem cut_off_read (r : Reading) (cut : CutOff .double body) :
    r.found ('"' :: body) ≤ r.owed := by
  obtain ⟨inside, outside⟩ := cut_off_found cut
  cases r with
  | outside => rw [found_outside_quote, inside]; exact Nat.zero_le _
  | inside => rw [found_inside_quote, outside]; exact Nat.le_refl 1
  | escaped => rw [found_escaped, inside]; exact Nat.zero_le _

/-- Whatever state the pattern comes to a line in, it finds the literals that are closed there, and
no more than that but for hidden quotes and a literal that is open already. -/
theorem found_on_line (r : Reading) (line : CodeLine cut) :
    closedStrings cut ≤ r.found (textOf cut) ∧
      r.found (textOf cut) ≤ closedStrings cut + hiddenQuotes cut + r.owed := by
  induction cut generalizing r with
  | nil => exact ⟨Nat.le_refl 0, Nat.zero_le _⟩
  | cons segment cut ih =>
    have step (read : segment.ReadFrom r) :
        closedStrings (segment :: cut) ≤ r.found (textOf (segment :: cut)) ∧
          r.found (textOf (segment :: cut)) ≤
            closedStrings (segment :: cut) + hiddenQuotes (segment :: cut) + r.owed := by
      have rest := ih (r.after segment.text) line.tail
      obtain ⟨least, most⟩ := read
      rw [text_of_cons, found_append, closed_strings_cons, hidden_quotes_cons]
      omega
    cases segment with
    | plain c =>
      refine step (read_outside_strings r rfl (List.count_eq_zero.mpr ?_))
      exact fun member => plain_no_quote line.fit.1 (List.mem_singleton.mp member).symm
    | lineComment body => cases line.noComment _ List.mem_cons_self
    | blockComment body closed => cases line.noComment _ List.mem_cons_self
    | literal q body closed =>
      cases q with
      | single =>
        refine step (read_outside_strings r rfl ?_)
        cases closed <;> simp [Segment.text, Segment.hiddenQuotes, Quote.char]
      | double =>
        cases closed with
        | true => exact step (closed_string_read r line.fit.1)
        | false =>
          obtain rfl := nothing_follows line
          have text : textOf [Segment.literal .double body false] = '"' :: body := by
            simp [textOf, Segment.text, Quote.char]
          rw [text]
          exact ⟨Nat.zero_le _, (cut_off_read r line.fit.1.1).trans (Nat.le_add_left _ _)⟩

/- The same on the masked line. -/

theorem spaces_content (body : List Char) : Content .double (body.map fun _ => ' ') := by
  refine plain_content .double _ fun c member => ?_
  obtain ⟨-, -, rfl⟩ := List.mem_map.mp member
  decide

theorem masked_string (body rest : List Char) :
    found .outside ('"' :: (body.map (fun _ => ' ') ++ rest)) = found .inside rest := by
  obtain ⟨none, stays⟩ := inside_content (spaces_content body)
  rw [found_outside_quote, found_append, none, stays, Nat.zero_add]

theorem found_on_masked_line (line : CodeLine cut) :
    found .outside (cut.flatMap Segment.masked) = closedStrings cut := by
  induction cut with
  | nil => rfl
  | cons segment cut ih =>
    have others (none : segment.isClosedString = false) (quotes : '"' ∉ segment.masked) :
        found .outside ((segment :: cut).flatMap Segment.masked) =
          closedStrings (segment :: cut) := by
      rw [List.flatMap_cons, found_append, found_without_quotes quotes,
        outside_without_quotes quotes, ih line.tail, closed_strings_cons, Segment.closedCount,
        none, Nat.zero_add]
      rfl
    cases segment with
    | plain c =>
      refine others rfl ?_
      exact fun member => plain_no_quote line.fit.1 (List.mem_singleton.mp member).symm
    | lineComment body => cases line.noComment _ List.mem_cons_self
    | blockComment body closed => cases line.noComment _ List.mem_cons_self
    | literal q body closed =>
      cases q with
      | single =>
        refine others rfl ?_
        cases closed <;> simp [Segment.masked, Quote.char]
      | double =>
        cases closed with
        | true =>
          have whole : (Segment.literal .double body true :: cut).flatMap Segment.masked =
              '"' :: (body.map (fun _ => ' ') ++ '"' :: cut.flatMap Segment.masked) := by
            simp [Segment.masked, Quote.char]
          rw [whole, masked_string, found_inside_quote, ih line.tail, closed_strings_cons,
            Nat.add_comm]
          rfl
        | false =>
          obtain rfl := nothing_follows line
          have whole : [Segment.literal .double body false].flatMap Segment.masked =
              '"' :: (body.map (fun _ => ' ') ++ []) := by
            simp [Segment.masked, Quote.char]
          rw [whole, masked_string]
          rfl

def maskedLine (line : List Char) : List Char :=
  Text.trimEnd ((scan .code line).map Mark.shown)

theorem masked_line_matches {line : List Char} (whole : textOf cut = line) (code : CodeLine cut)
    (bare : Bare line) : countMatches stringLiteral (maskedLine line) = closedStrings cut := by
  subst whole
  have shown : (scan .code (textOf cut)).map Mark.shown = cut.flatMap Segment.masked := by
    have masked := masked_of_marks (scan .code (textOf cut))
    rw [left_of_bare bare, scan_segments code.fit, maskedText, marksOf,
      List.filterMap_flatMap] at masked
    rw [scan_segments code.fit, marksOf, ← masked]
    exact congrArg (List.flatMap · cut) (funext masked_of_segment)
  obtain ⟨blanks, parts, blank⟩ := Text.trim_end_split (cut.flatMap Segment.masked)
  have noQuotes : '"' ∉ blanks := fun member => absurd (blank _ member) (by decide)
  have inLine : '\n' ∉ maskedLine (textOf cut) := by
    intro member
    have start : maskedLine (textOf cut) <+: (scan .code (textOf cut)).map Mark.shown :=
      List.rdropWhile_prefix Text.isBlank _
    obtain ⟨m, inside, same⟩ := List.mem_map.mp (start.mem member)
    unfold Mark.shown at same
    split at same
    · cases same
    · apply code.inLine
      rw [← scan_chars .code (textOf cut), ← same]
      exact List.mem_map_of_mem inside
  have trimmed : maskedLine (textOf cut) = Text.trimEnd (cut.flatMap Segment.masked) := by
    rw [maskedLine, shown]
  have read := found_on_masked_line code
  rw [parts, found_append, found_without_quotes noQuotes, Nat.add_zero] at read
  rw [string_matches_read inLine, trimmed, read]

/- The same with apostrophes out of the way. -/

/-- Neither an apostrophe nor a slash, for which a space stands. -/
def blunted (c : Char) : Char := if c = '\'' ∨ c = '/' then ' ' else c

theorem blunted_eq_iff {c d : Char} (kept : d ≠ ' ' ∧ d ≠ '\'' ∧ d ≠ '/') :
    blunted c = d ↔ c = d := by
  unfold blunted
  split
  · rename_i blunt
    rcases blunt with rfl | rfl <;> simp [kept.1.symm, kept.2.1.symm, kept.2.2.symm]
  · rfl

theorem blunted_reading (r : Reading) (c : Char) :
    r.next (blunted c) = r.next c ∧ r.closes (blunted c) = r.closes c := by
  have quote : blunted c = '"' ↔ c = '"' := blunted_eq_iff (by decide)
  have escape : blunted c = '\\' ↔ c = '\\' := blunted_eq_iff (by decide)
  constructor
  · cases r <;> simp only [next, quote, escape]
  · simp only [closes, quote]

theorem found_blunted (r : Reading) (cs : List Char) : r.found (cs.map blunted) = r.found cs := by
  induction cs generalizing r with
  | nil => rfl
  | cons c cs ih =>
    rw [List.map_cons, found, found, (blunted_reading r c).1, (blunted_reading r c).2, ih]

theorem blunted_code_line (fit : Segmentation cut) {line : List Char}
    (whole : textOf cut = line.map blunted) (inLine : '\n' ∉ line) :
    CodeLine cut ∧ hiddenQuotes cut = 0 := by
  have free {segment : Segment} (member : segment ∈ cut) :
      '\'' ∉ segment.text ∧ '/' ∉ segment.text := by
    have none {d : Char} (blunt : d = '\'' ∨ d = '/') : d ∉ segment.text := by
      intro inside
      have within : d ∈ line.map blunted := whole ▸ List.mem_flatMap.mpr ⟨segment, member, inside⟩
      obtain ⟨c, -, same⟩ := List.mem_map.mp within
      unfold blunted at same
      rcases blunt with rfl | rfl <;> grind
    exact ⟨none (Or.inl rfl), none (Or.inr rfl)⟩
  refine ⟨⟨fit, ?_, ?_⟩, ?_⟩
  · intro segment member
    have slash := (free member).2
    cases segment <;> simp_all [Segment.text, Segment.isComment]
  · rw [whole]
    intro member
    obtain ⟨c, inside, same⟩ := List.mem_map.mp member
    have newline : c = '\n' := (blunted_eq_iff (by decide)).mp same
    exact inLine (newline ▸ inside)
  · have none : ∀ segment ∈ cut, segment.hiddenQuotes = 0 := by
      intro segment member
      have apostrophe := (free member).1
      rcases segment with c | body | body | ⟨q, body, closed⟩
      · rfl
      · rfl
      · rfl
      · cases q with
        | single => exact absurd List.mem_cons_self apostrophe
        | double => rfl
    exact nothing_hidden none

/-- What is counted on a line, beside what the scanner makes of it. -/
structure StringCount (line : List Char) (cut : List Segment) : Prop where
  none_missed : closedStrings cut ≤ countMatches stringLiteral line
  few_more : countMatches stringLiteral line ≤ closedStrings cut + hiddenQuotes cut
  masked : countMatches stringLiteral (maskedLine line) = closedStrings cut
  apart : ∀ other, Segmentation other → textOf other = line.map blunted →
    countMatches stringLiteral line = closedStrings other

theorem strings_on_line {line : List Char} (fit : Segmentation cut) (whole : textOf cut = line)
    (inLine : '\n' ∉ line) (bare : Bare line) : StringCount line cut := by
  have code := code_line_of_bare fit whole inLine bare
  have read := string_matches_read inLine
  obtain ⟨least, most⟩ := found_on_line .outside code
  rw [whole, ← read] at least most
  refine ⟨least, most, masked_line_matches whole code bare, ?_⟩
  intro other fit' whole'
  obtain ⟨code', none⟩ := blunted_code_line fit' whole' inLine
  obtain ⟨least', most'⟩ := found_on_line .outside code'
  rw [whole', found_blunted, ← read] at least' most'
  rw [none] at most'
  exact Nat.le_antisymm most' least'

end Source

namespace Analysis

/- The lines of a file whose literals count. -/

def bearsLiterals (line : List Char) : Bool :=
  !Lexicon.isInclude line && !opens macroDefinition line

theorem literal_lines_eq (text filename : String) : literalLines (prepare text filename) =
    ((prepare text filename).codeLines.filter bearsLiterals).map fun line =>
      (line, maskedLine line) := by
  have masked : (prepare text filename).maskedLines =
      (prepare text filename).codeLines.map maskedLine := by
    rw [masked_lines_of_marks, kept_marks_eq text filename, List.map_map]
    rfl
  have paired (lines : List (List Char)) :
      lines.zip (lines.map maskedLine) = lines.map fun line => (line, maskedLine line) := by
    conv => lhs; arg 1; rw [← List.map_id lines]
    exact List.zip_map'
  rw [literalLines, masked, paired, List.filter_map]
  rfl

theorem string_literals_summed (α : Type) [Scalar α] (s : Prepared) :
    (structureMetrics s : Metrics α).stringLiterals =
      sumOf ((literalLines s).map fun (code, _) => countMatches stringLiteral code) := by
  unfold structureMetrics
  split
  · rename_i empty
    have none : s.codeLines = [] := List.isEmpty_iff.mp empty
    rw [literalLines, none]
    rfl
  · rfl

theorem sums_of_counts {lines : List (List Char)} {cut : List Char → List Segment}
    (counts : ∀ line ∈ lines, StringCount line (cut line)) :
    let closed := (lines.map fun line => closedStrings (cut line)).sum
    let counted := (lines.map fun line => countMatches stringLiteral line).sum
    closed ≤ counted ∧
      counted ≤ closed + (lines.map fun line => hiddenQuotes (cut line)).sum ∧
      (lines.map fun line => countMatches stringLiteral (maskedLine line)).sum = closed := by
  induction lines with
  | nil => exact ⟨Nat.le_refl 0, Nat.le_refl 0, rfl⟩
  | cons line lines ih =>
    obtain ⟨first, rest⟩ := List.forall_mem_cons.mp counts
    obtain ⟨missed, more, masked⟩ := ih rest
    have none_missed := first.none_missed
    have few_more := first.few_more
    have alike := first.masked
    simp only [List.map_cons, List.sum_cons] at missed more masked ⊢
    omega

end Analysis

/-- On the lines that are neither inclusions nor macro definitions, cut as the scanner takes them,
every string literal that it opens and closes is counted, and at most one more for each double quote
that it takes as part of a character literal. On the masked lines the pattern would count those
literals and no others. On each line it counts what the scanner would take as string literals if
apostrophes and slashes were spaces. -/
theorem string_literals_beside_scanner (α : Type) [Scalar α] (text filename : String) :
    let s := prepare text filename
    let counted := (structureMetrics s : Metrics α).stringLiterals
    ∃ cuts : List (List Segment),
      (∀ cut ∈ cuts, Segmentation cut) ∧
      cuts.map marksOf =
        (keptMarks (marksIn text)).filter (fun line => bearsLiterals (line.map (·.char))) ∧
      sumOf (cuts.map closedStrings) ≤ counted ∧
      counted ≤ sumOf (cuts.map closedStrings) + sumOf (cuts.map hiddenQuotes) ∧
      sumOf ((literalLines s).map fun (_, masked) => countMatches stringLiteral masked) =
        sumOf (cuts.map closedStrings) ∧
      ∀ cut ∈ cuts, ∀ other, Segmentation other → textOf other = (textOf cut).map blunted →
        countMatches stringLiteral (textOf cut) = closedStrings other := by
  intro s counted
  choose cut fit whole using every_text_has_a_segmentation
  let lines := s.codeLines.filter bearsLiterals
  have counts : ∀ line ∈ lines, StringCount line (cut line) := by
    intro line member
    obtain ⟨inLine, -, bare⟩ := code_lines_kept text filename line (List.mem_of_mem_filter member)
    exact strings_on_line (fit line) (whole line) inLine bare
  have marks : ∀ line, marksOf (cut line) = scan .code line := by
    intro line
    rw [← scan_segments (fit line), whole]
  have total : counted = sumOf (lines.map fun line => countMatches stringLiteral line) := by
    change (structureMetrics s : Metrics α).stringLiterals = _
    rw [string_literals_summed, literal_lines_eq, List.map_map]
    rfl
  obtain ⟨missed, more, masked⟩ := sums_of_counts counts
  refine ⟨lines.map cut, ?_, ?_, ?_, ?_, ?_, ?_⟩
  · exact List.forall_mem_map.mpr fun line _ => fit line
  · rw [kept_marks_eq text filename, List.filter_map, List.map_map]
    simp only [Function.comp_def, scan_chars, marks]
    rfl
  · rw [total, List.map_map]
    exact missed
  · rw [total, List.map_map, List.map_map]
    exact more
  · rw [literal_lines_eq, List.map_map, List.map_map]
    exact masked
  · refine List.forall_mem_map.mpr fun line member => ?_
    rw [whole]
    exact (counts line member).apart

/-- Two double quotes, each in a character literal, with no string literal anywhere. -/
theorem quotes_counted_as_string :
    let text := "f('\"','\"');"
    let cut : List Segment := [.plain 'f', .plain '(', .literal .single ['"'] true, .plain ',',
      .literal .single ['"'] true, .plain ')', .plain ';']
    (Segmentation cut ∧ textOf cut = text.toList ∧ closedStrings cut = 0) ∧
      (prepare text "a.c").codeLines = [text.toList] ∧
      bearsLiterals text.toList = true ∧
      (structureMetrics (prepare text "a.c") : Metrics Rat).stringLiterals = 1 := by
  have quoted : Content .single ['"'] :=
    plain_content .single ['"'] (by simp [Quote.char])
  have fit : Segmentation [.plain 'f', .plain '(', .literal .single ['"'] true, .plain ',',
      .literal .single ['"'] true, .plain ')', .plain ';'] :=
    ⟨rfl, rfl, quoted, rfl, quoted, rfl, rfl, trivial⟩
  exact ⟨⟨fit, by decide +kernel⟩, by decide +kernel⟩

end Authorship
