import Authorship.Proofs.RealText
import Authorship.Proofs.TextLines
import Authorship.Report.Verdicts

/-
A report as lines. JSON on one line has no control character in it, whatever the texts in it are, so
the newlines of a report are those that end its lines. Each line is read as the record of its file:
every number in it is read as some number, and no text changes.
-/
namespace Authorship

namespace Json

def Printable (c : Char) : Prop := 0x20 ≤ c.toNat

instance (c : Char) : Decidable (Printable c) := inferInstanceAs (Decidable (_ ≤ _))

def AllPrintable (cs : List Char) : Prop := ∀ c ∈ cs, Printable c

instance (cs : List Char) : Decidable (AllPrintable cs) := List.decidableBAll Printable cs

variable {cs ds : List Char}

theorem printable_nil : AllPrintable [] := nofun

theorem printable_cons {c : Char} (first : Printable c) (others : AllPrintable cs) :
    AllPrintable (c :: cs) := List.forall_mem_cons.mpr ⟨first, others⟩

theorem printable_append (left : AllPrintable cs) (right : AllPrintable ds) :
    AllPrintable (cs ++ ds) := List.forall_mem_append.mpr ⟨left, right⟩

theorem number_printable {c : Char} (inNumber : InNumber c) : Printable c := by
  rcases inNumber with digit | rfl | rfl | rfl | rfl | rfl
  · exact le_trans (by decide) (Char.isDigit_iff_toNat.mp digit).1
  all_goals decide

theorem hex_printable : ∀ n < 16, Printable (hexChar n) := by decide

theorem escape_printable (c : Char) : AllPrintable (escape c) := by
  unfold escape
  split
  case h_8 =>
    split
    · rename_i control
      have upper := hex_printable (c.toNat / 16) (by omega)
      have lower := hex_printable (c.toNat % 16) (by omega)
      have zeros : AllPrintable ['\\', 'u', '0', '0'] := by decide
      exact printable_append zeros (printable_cons upper (printable_cons lower printable_nil))
    · rename_i ordinary
      exact printable_cons (Nat.le_of_not_lt ordinary) printable_nil
  all_goals decide

theorem quoted_printable (text : String) : AllPrintable (quoted text) := by
  have inside : AllPrintable (text.toList.flatMap escape) := by
    intro c member
    obtain ⟨d, -, escaped⟩ := List.mem_flatMap.mp member
    exact escape_printable d c escaped
  have quote : Printable '"' := by decide
  exact printable_cons quote (printable_append inside (printable_cons quote printable_nil))

theorem int_printable (n : Int) : AllPrintable (Decimal.intText n).toList := by
  have digits : AllPrintable (Decimal.natText n.natAbs).toList := by
    rw [Decimal.natText, String.toList_ofList]
    exact fun c member => number_printable (Or.inl (digits_are_digits n.natAbs c member))
  rw [Decimal.intText]
  split
  · rw [String.toList_append]
    exact printable_append (by decide) digits
  · exact digits

theorem real_printable (x : Float) : AllPrintable (realChars x) := by
  by_cases finite : x.isFinite = true
  · obtain ⟨t, wellFormed, -, chars⟩ := real_number_chars finite
    rw [← chars]
    exact fun c member => number_printable (NumberText.chars_in_number wellFormed c member)
  · rw [not_finite_is_null finite]
    decide

mutual

theorem compact_printable (v : Value) : AllPrintable (writeChars none v) := by
  cases v with
  | null => rw [writeChars]; decide
  | bool b => cases b <;> rw [writeChars] <;> decide
  | int n => rw [writeChars]; exact int_printable n
  | real x => rw [writeChars]; exact real_printable x
  | text s => rw [writeChars]; exact quoted_printable s
  | list items =>
    cases items with
    | nil => rw [writeChars]; decide
    | cons item items =>
      rw [writeChars]
      exact printable_cons (by decide) (printable_append (compact_printable item)
        (printable_append (compact_items_printable items)
          (printable_cons (by decide) printable_nil)))
  | object entries =>
    cases entries with
    | nil => rw [writeChars]; decide
    | cons entry entries =>
      obtain ⟨key, value⟩ := entry
      rw [writeChars]
      exact printable_cons (by decide) (printable_append
        (printable_append (printable_append (quoted_printable key)
          (printable_cons (by decide) printable_nil)) (compact_printable value))
        (printable_append (compact_entries_printable entries)
          (printable_cons (by decide) printable_nil)))

theorem compact_items_printable (items : List Value) : AllPrintable (writeItems none items) := by
  cases items with
  | nil => rw [writeItems]; exact printable_nil
  | cons item items =>
    rw [writeItems]
    exact printable_cons (by decide) (printable_append (compact_printable item)
      (compact_items_printable items))

theorem compact_entries_printable (entries : List (String × Value)) :
    AllPrintable (writeEntries none entries) := by
  cases entries with
  | nil => rw [writeEntries]; exact printable_nil
  | cons entry entries =>
    obtain ⟨key, value⟩ := entry
    rw [writeEntries]
    exact printable_cons (by decide) (printable_append
      (printable_append (printable_append (quoted_printable key)
        (printable_cons (by decide) printable_nil)) (compact_printable value))
      (compact_entries_printable entries))

end

theorem not_in_printable {c : Char} (control : ¬ Printable c) (printable : AllPrintable cs) :
    c ∉ cs := fun member => control (printable c member)

/- What is read of an object. -/

theorem lookup_reread (entries before : List (String × Value)) (key : String) :
    (rereadEntries before entries).lookup key =
      ((entries.reverse.lookup key).map reread).or (before.lookup key) := by
  induction entries generalizing before with
  | nil =>
    rw [rereadEntries]
    rfl
  | cons entry entries ih =>
    obtain ⟨key', v⟩ := entry
    rw [rereadEntries, ih, lookup_insert_entry, List.reverse_cons, List.lookup_append,
      lookup_of_cons, List.lookup_nil]
    cases entries.reverse.lookup key with
    | some v' => rfl
    | none => by_cases same : key = key' <;> simp [same]

theorem field_reread (entries : List (String × Value)) (key : String) :
    (reread (.object entries)).field? key = (entries.reverse.lookup key).map reread := by
  rw [reread, Value.field?, lookup_reread, List.lookup_nil, Option.or_none]

theorem texts_reread (ss : List String) : reread (.texts ss) = .texts ss := by
  have items : rereadItems (ss.map Value.text) = ss.map .text := by
    induction ss with
    | nil => rw [List.map_nil, rereadItems]
    | cons s ss ih => rw [List.map_cons, rereadItems, ih, reread]
  rw [Value.texts, reread, items]

theorem texts_readable {depth : Nat} (some : 0 < depth) (ss : List String) :
    Readable depth (.texts ss) := by
  have items : ReadableItems (depth - 1) (ss.map Value.text) := by
    induction ss with
    | nil => rw [List.map_nil, ReadableItems]; trivial
    | cons s ss ih =>
      rw [List.map_cons, ReadableItems, Readable]
      exact ⟨trivial, ih⟩
  rw [Value.texts, Readable]
  exact ⟨some, items⟩

theorem real_readable (depth : Nat) (x : Float) : Readable depth (.real x) := by
  rw [Readable]
  exact real_read

theorem reals_readable {depth : Nat} (some : 0 < depth) (entries : List (String × Float)) :
    Readable depth (.object (entries.map fun (name, x) => (name, .real x))) := by
  have readable : ReadableEntries (depth - 1)
      (entries.map fun (name, x) => (name, Value.real x)) := by
    induction entries with
    | nil => rw [List.map_nil, ReadableEntries]; trivial
    | cons entry entries ih =>
      rw [List.map_cons, ReadableEntries]
      exact ⟨real_readable _ _, ih⟩
  rw [Readable]
  exact ⟨some, readable⟩

end Json

namespace Text

/- Lines that all have their newline. -/

def ended (pieces : List (List Char)) : List Char := pieces.flatMap (· ++ ['\n'])

variable {pieces : List (List Char)}

theorem split_ended (whole : ∀ piece ∈ pieces, '\n' ∉ piece) :
    splitOn '\n' (ended pieces) = pieces ++ [[]] := by
  induction pieces with
  | nil => rfl
  | cons piece pieces ih =>
    obtain ⟨first, others⟩ := List.forall_mem_cons.mp whole
    have alone : splitOn '\n' (joinWith '\n' [piece]) = [piece] :=
      split_joined (List.cons_ne_nil _ _) (by simpa using first)
    have parts : ended (piece :: pieces) = piece ++ '\n' :: ended pieces := by
      rw [ended, List.flatMap_cons, List.append_assoc]
      rfl
    rw [joinWith, split_eq] at alone
    rw [split_eq] at ih
    rw [parts, split_eq, List.splitOn_append_cons_self, alone, ih others]
    rfl

theorem newlines_ended (whole : ∀ piece ∈ pieces, '\n' ∉ piece) :
    (ended pieces).count '\n' = pieces.length := by
  have pieces_counted := split_length '\n' (ended pieces)
  rw [split_ended whole, List.length_append, List.length_singleton] at pieces_counted
  omega

theorem lines_ended (whole : ∀ piece ∈ pieces, '\n' ∉ piece)
    (ends : ∀ piece ∈ pieces, piece.getLast? ≠ some '\r') : lines (ended pieces) = pieces := by
  rw [lines_of_split (split_ended whole), if_pos rfl, List.append_nil]
  calc pieces.map dropLineEnd = pieces.map id :=
        List.map_congr_left fun piece member => drop_no_return (ends piece member)
    _ = pieces := List.map_id pieces

end Text

namespace Report

open Json

/- The record of a file. -/

structure RecordOf (f : FileReport) (v : Value) : Prop where
  path : v.field? "path" = some (.text f.path)
  prediction : (v.field? "result").bind (·.field? "prediction") =
    some (.text f.result.prediction.key)
  reasoning : (v.field? "result").bind (·.field? "reasoning") = some (.texts f.result.reasoning)

theorem result_readable {depth : Nat} (deep : 1 < depth) (r : Detection.Result) :
    Json.Readable depth r.toJson := by
  have inner : 0 < depth - 1 := by omega
  have contributions := reals_readable inner r.contributions.entries
  rw [Json.Readable] at contributions
  simp only [Detection.Result.toJson, Json.Readable, ReadableEntries]
  exact ⟨by omega, trivial, real_read, real_read, texts_readable inner _, contributions, trivial,
    trivial⟩

theorem file_readable {depth : Nat} (deep : 2 < depth) (f : FileReport) :
    Json.Readable depth f.toJson := by
  have inner : 1 < depth - 1 := by omega
  have result := result_readable inner f.result
  cases features : f.features with
  | none =>
    simp only [FileReport.toJson, features, Json.Readable, ReadableEntries, Option.toList,
      List.map_nil, List.append_nil]
    exact ⟨by omega, trivial, trivial, result, trivial⟩
  | some features' =>
    simp only [FileReport.toJson, features, Json.Readable, ReadableEntries, Option.toList,
      List.map_cons, List.map_nil, List.cons_append, List.nil_append]
    exact ⟨by omega, trivial, trivial, result, reals_readable (by omega) _, trivial⟩

theorem file_fields (f : FileReport) :
    (reread f.toJson).field? "path" = some (.text f.path) ∧
      (reread f.toJson).field? "result" = some (reread f.result.toJson) := by
  rw [FileReport.toJson, field_reread, field_reread]
  cases f.features <;> simp [List.lookup, reread]

theorem file_record (f : FileReport) : RecordOf f (reread f.toJson) := by
  obtain ⟨path, result⟩ := file_fields f
  refine ⟨path, ?_, ?_⟩
  · rw [result, Option.bind_some, Detection.Result.toJson, field_reread]
    simp [List.lookup, reread]
  · rw [result, Option.bind_some, Detection.Result.toJson, field_reread]
    simp [List.lookup, texts_reread]

/-- A line that is read as the record of a file. -/
def LineOf (f : FileReport) (line : List Char) : Prop :=
  ∃ v, readChars line = some v ∧ RecordOf f v

theorem file_line (f : FileReport) : LineOf f (writeChars none f.toJson) := by
  have deep : 2 < depthLimit := by decide
  exact ⟨_, read_again f.toJson none (file_readable deep f), file_record f⟩

def recordLines (files : List FileReport) : List (List Char) :=
  files.map fun f => writeChars none f.toJson

theorem record_lines_printable (files : List FileReport) :
    ∀ line ∈ recordLines files, AllPrintable line := by
  intro line member
  obtain ⟨f, -, rfl⟩ := List.mem_map.mp member
  exact compact_printable f.toJson

theorem record_lines_whole (files : List FileReport) :
    ∀ line ∈ recordLines files, '\n' ∉ line := fun line member =>
  not_in_printable (by decide) (record_lines_printable files line member)

theorem record_lines_end (files : List FileReport) :
    ∀ line ∈ recordLines files, line.getLast? ≠ some '\r' := fun line member last =>
  not_in_printable (by decide) (record_lines_printable files line member)
    (List.mem_of_getLast? last)

theorem json_lines_ended (r : VerdictReport) :
    r.jsonLines.toList = Text.ended (recordLines r.files) := by
  rw [VerdictReport.jsonLines, String.toList_join, List.flatMap_map, recordLines, Text.ended,
    List.flatMap_map]
  refine List.flatMap_congr fun f _ => ?_
  rw [String.toList_append, compact, String.toList_ofList]
  rfl

theorem predictions_counted (predictions : List Detection.Prediction) :
    predictions.length = predictions.count .aiGenerated + predictions.count .humanWritten +
      predictions.count .uncertain := by
  induction predictions with
  | nil => rfl
  | cons prediction predictions ih =>
    cases prediction <;> simp [ih] <;> omega

/-- A text with one line for each of the files, in their order, and no newline but those that end
the lines. -/
structure LinesOf (files : List FileReport) (text : List Char) : Prop where
  newlines : text.count '\n' = files.length
  ended : text = Text.ended (Text.lines text)
  records : List.Forall₂ LineOf files (Text.lines text)

/-- Every file is counted, and under one verdict only. -/
structure Accounts (s : Summary) (files : List FileReport) : Prop where
  total : s.total = files.length
  parts : s.total = s.aiGenerated + s.humanWritten + s.uncertain

theorem line_for_each_file (r : VerdictReport) :
    LinesOf r.files r.jsonLines.toList ∧ Accounts r.summary r.files := by
  have lines := Text.lines_ended (record_lines_whole r.files) (record_lines_end r.files)
  have text := json_lines_ended r
  refine ⟨⟨?_, ?_, ?_⟩, ⟨List.length_map _, predictions_counted _⟩⟩
  · rw [text, Text.newlines_ended (record_lines_whole r.files)]
    exact List.length_map _
  · rw [text, lines]
  · rw [text, lines, recordLines, List.forall₂_map_right_iff]
    exact List.forall₂_same.mpr fun f _ => file_line f

end Report

end Authorship
