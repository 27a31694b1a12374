import Authorship.Analysis.Style
import Mathlib.Data.List.GetD
import Mathlib.Data.List.Infix
import Mathlib.Data.List.TakeDrop

/-
Which levels of indentation are open. The levels are kept on a stack that loses its deeper ones at
every step outwards, and that tells no more than the columns themselves do: a level is open exactly
if a line began there and no line since then has begun further out.
-/
namespace Authorship.Analysis

/- Levels and the columns of the lines so far. -/

/-- A line began at this column, and none after it further out. -/
def OpenAfter (past : List Nat) (level : Nat) : Prop :=
  ∃ before after, past = before ++ level :: after ∧ ∀ column ∈ after, level ≤ column

theorem open_after_step (past : List Nat) (column level : Nat) :
    OpenAfter (past ++ [column]) level ↔
      level = column ∨ level ≤ column ∧ OpenAfter past level := by
  constructor
  · rintro ⟨before, after, parts, since⟩
    rcases List.eq_nil_or_concat' after with rfl | ⟨after, last, rfl⟩
    · left
      exact (List.singleton_inj.mp (List.append_inj' parts rfl).2).symm
    · right
      rw [← List.cons_append, ← List.append_assoc] at parts
      obtain ⟨earlier, same⟩ := List.append_inj' parts rfl
      obtain rfl : column = last := List.singleton_inj.mp same
      rw [List.forall_mem_append, List.forall_mem_singleton] at since
      exact ⟨since.2, before, after, earlier, since.1⟩
  · rintro (rfl | ⟨le, before, after, rfl, since⟩)
    · exact ⟨past, [], rfl, by simp⟩
    · refine ⟨before, after ++ [column], by simp, ?_⟩
      rw [List.forall_mem_append, List.forall_mem_singleton]
      exact ⟨since, le⟩

/-- What the stack is like after the columns so far: the last of them is on top, and the open levels
are below it from the inside out. -/
structure Levels (past levels : List Nat) : Prop where
  top : levels.head? = past.getLast?
  falling : levels.Pairwise (· > ·)
  opened : ∀ level, level ∈ levels ↔ OpenAfter past level

def enterColumn (column : Nat) (levels : List Nat) : List Nat :=
  if (closeDeeper column levels).head? = some column then closeDeeper column levels
  else column :: closeDeeper column levels

theorem mem_close_deeper {levels : List Nat} (falling : levels.Pairwise (· > ·))
    (column level : Nat) : level ∈ closeDeeper column levels ↔ level ∈ levels ∧ level ≤ column := by
  unfold closeDeeper
  induction levels with
  | nil => simp
  | cons top rest ih =>
    obtain ⟨below, falling'⟩ := List.pairwise_cons.mp falling
    by_cases deeper : column < top
    · rw [List.dropWhile_cons_of_pos (by simpa using deeper), ih falling', List.mem_cons]
      constructor
      · exact fun ⟨member, le⟩ => ⟨Or.inr member, le⟩
      · rintro ⟨rfl | member, le⟩
        · omega
        · exact ⟨member, le⟩
    · rw [List.dropWhile_cons_of_neg (by simpa using deeper), List.mem_cons, iff_self_and]
      rintro (rfl | member)
      · omega
      · have := below level member
        omega

theorem close_deeper_falling {levels : List Nat} (falling : levels.Pairwise (· > ·))
    (column : Nat) : (closeDeeper column levels).Pairwise (· > ·) :=
  falling.sublist (List.dropWhile_sublist _)

/- The innermost of the levels that stay is the only one that can be at the column. -/
theorem closed_to_column_iff {levels : List Nat} (falling : levels.Pairwise (· > ·))
    (column : Nat) : (closeDeeper column levels).head? = some column ↔ column ∈ levels := by
  have kept := mem_close_deeper falling column
  have falling' := close_deeper_falling falling column
  constructor
  · intro top
    exact ((kept column).mp (List.mem_of_head? top)).1
  · intro member
    have inside := (kept column).mpr ⟨member, Nat.le_refl column⟩
    cases stack : closeDeeper column levels with
    | nil => simp [stack] at inside
    | cons top rest =>
      rw [stack] at inside falling'
      have le := ((kept top).mp (stack ▸ List.mem_cons_self)).2
      rcases List.mem_cons.mp inside with rfl | later
      · rfl
      · have := (List.pairwise_cons.mp falling').1 column later
        omega

/-- One line keeps the stack what it should be. -/
theorem levels_step {past levels : List Nat} (invariant : Levels past levels) (column : Nat) :
    Levels (past ++ [column]) (enterColumn column levels) := by
  have kept := mem_close_deeper invariant.falling column
  have falling := close_deeper_falling invariant.falling column
  have inside (level : Nat) : level ∈ enterColumn column levels ↔
      level = column ∨ level ∈ levels ∧ level ≤ column := by
    unfold enterColumn
    split
    · rename_i top
      rw [kept, iff_or_self]
      rintro rfl
      exact (kept level).mp (List.mem_of_head? top)
    · rw [List.mem_cons, kept]
  constructor
  · rw [List.getLast?_concat, enterColumn]
    split
    · assumption
    · rfl
  · unfold enterColumn
    split
    · exact falling
    · rename_i other
      refine List.pairwise_cons.mpr ⟨fun level member => ?_, falling⟩
      obtain ⟨stays, le⟩ := (kept level).mp member
      refine Nat.lt_of_le_of_ne le ?_
      rintro rfl
      exact other ((closed_to_column_iff invariant.falling level).mpr stays)
  · intro level
    rw [inside, open_after_step, invariant.opened, and_comm]

theorem levels_of_text : Levels [0] [0] := by
  refine ⟨rfl, List.pairwise_singleton _ 0, fun level => ?_⟩
  have step := open_after_step [] 0 level
  rw [List.nil_append] at step
  rw [step, List.mem_singleton, iff_self_or]
  rintro ⟨le, -⟩
  omega

/-- What one line adds does not depend on whether the step is inwards, outwards or none. -/
theorem step_issues_cons {past levels : List Nat} (invariant : Levels past levels) {previous : Nat}
    (last : past.getLast? = some previous) (column : Nat) (columns : List Nat) :
    stepIssues previous levels (column :: columns) =
      (if previous + greatestStep < column then 1 else 0) +
        (if column < previous ∧ column ∉ levels then 1 else 0) +
        stepIssues column (enterColumn column levels) columns := by
  have top : levels.head? = some previous := invariant.top.trans last
  obtain ⟨rest, rfl⟩ := List.head?_eq_some_iff.mp top
  have below := (List.pairwise_cons.mp invariant.falling).1
  have returns := closed_to_column_iff invariant.falling column
  rw [stepIssues]
  by_cases inwards : previous < column
  · have kept : closeDeeper column (previous :: rest) = previous :: rest :=
      List.dropWhile_cons_of_neg (by simpa using Nat.le_of_lt inwards)
    have entered : enterColumn column (previous :: rest) = column :: previous :: rest := by
      rw [enterColumn, kept, if_neg (by simpa using Nat.ne_of_lt inwards)]
    have notOut : ¬ column < previous := by omega
    simp only [if_pos inwards, notOut, false_and, if_false, entered, Nat.add_zero]
  · have notAbrupt : ¬ previous + greatestStep < column := by omega
    rw [if_neg inwards, if_neg notAbrupt]
    by_cases outwards : column < previous
    · by_cases member : column ∈ previous :: rest
      · have stays := returns.mpr member
        simp [outwards, enterColumn, stays, member]
      · have leaves := mt returns.mp member
        simp [outwards, enterColumn, leaves, member]
    · obtain rfl : column = previous := by omega
      have stays := returns.mpr List.mem_cons_self
      have kept : closeDeeper column (column :: rest) = column :: rest :=
        List.dropWhile_cons_of_neg (by simp)
      simp [enterColumn, kept]

/- The columns by their numbers. -/

def columnAt (columns : List Nat) (k : Nat) : Nat := columns.getD k 0

/-- An earlier line has the same column, and no line between the two is further out. -/
def ReturnsToOpen (c : Nat → Nat) (k : Nat) : Prop :=
  ∃ j < k, c j = c k ∧ ∀ i < k, j < i → c k ≤ c i

instance (c : Nat → Nat) (k : Nat) : Decidable (ReturnsToOpen c k) :=
  inferInstanceAs (Decidable (∃ j < k, c j = c k ∧ ∀ i < k, j < i → c k ≤ c i))

theorem column_at_past {past columns : List Nat} {k : Nat} (inside : k < past.length) :
    columnAt (past ++ columns) k = past[k] := by
  rw [columnAt, List.getD_append _ _ _ _ inside, List.getD_eq_getElem _ _ inside]

theorem column_at_next (past : List Nat) (column : Nat) (columns : List Nat) :
    columnAt (past ++ column :: columns) past.length = column := by
  rw [columnAt, List.getD_append_right _ _ _ _ (Nat.le_refl _), Nat.sub_self, List.getD_cons_zero]

theorem returns_to_open_iff (past : List Nat) (column : Nat) (columns : List Nat) :
    ReturnsToOpen (columnAt (past ++ column :: columns)) past.length ↔ OpenAfter past column := by
  unfold ReturnsToOpen
  rw [column_at_next]
  constructor
  · rintro ⟨j, inside, same, since⟩
    rw [column_at_past inside] at same
    refine ⟨past.take j, past.drop (j + 1), ?_, ?_⟩
    · rw [← same, List.cons_getElem_drop_succ, List.take_append_drop]
    · intro later member
      obtain ⟨i, bound, rfl⟩ := List.getElem_of_mem member
      rw [List.length_drop] at bound
      have le := since (j + 1 + i) (by omega) (by omega)
      rwa [column_at_past (by omega), ← List.getElem_drop] at le
  · rintro ⟨before, after, rfl, since⟩
    refine ⟨before.length, by simp, ?_, ?_⟩
    · rw [List.append_assoc, List.cons_append, column_at_next]
    · intro i bound later
      obtain ⟨m, rfl⟩ := Nat.exists_eq_add_of_lt later
      have place : (before ++ column :: after)[before.length + m + 1] ∈ after := by
        simp [Nat.add_assoc]
      rw [column_at_past bound]
      exact since _ place

def StepsFarIn (c : Nat → Nat) (k : Nat) : Prop := c (k - 1) + 8 < c k

/-- The line begins further out than the one before it, at a level that is not open. -/
def StepsOutAstray (c : Nat → Nat) (k : Nat) : Prop := c k < c (k - 1) ∧ ¬ ReturnsToOpen c k

instance (c : Nat → Nat) : DecidablePred (StepsFarIn c) :=
  fun k => inferInstanceAs (Decidable (c (k - 1) + 8 < c k))

instance (c : Nat → Nat) : DecidablePred (StepsOutAstray c) :=
  fun k => inferInstanceAs (Decidable (c k < c (k - 1) ∧ ¬ ReturnsToOpen c k))

theorem step_issues_eq {past levels : List Nat} (invariant : Levels past levels) {previous : Nat}
    (last : past.getLast? = some previous) (columns : List Nat) :
    let c := columnAt (past ++ columns)
    stepIssues previous levels columns =
      (List.range' past.length columns.length).countP (StepsFarIn c) +
        (List.range' past.length columns.length).countP (StepsOutAstray c) := by
  intro c
  induction columns generalizing past levels previous with
  | nil => rfl
  | cons column columns ih =>
    have some : past ≠ [] := by
      rintro rfl
      simp at last
    have inside : past.length - 1 < past.length := by
      have := List.length_pos_iff.mpr some
      omega
    have before : c (past.length - 1) = previous := by
      have place : c (past.length - 1) = past[past.length - 1] := column_at_past inside
      rw [place, ← Option.some_inj, ← last, List.getLast?_eq_getElem?, List.getElem?_eq_getElem]
    have here : c past.length = column := column_at_next past column columns
    have far : StepsFarIn c past.length ↔ previous + greatestStep < column := by
      rw [StepsFarIn, before, here, greatestStep]
    have astray : StepsOutAstray c past.length ↔ column < previous ∧ column ∉ levels := by
      rw [StepsOutAstray, before, here, returns_to_open_iff, invariant.opened]
    have later : stepIssues column (enterColumn column levels) columns =
        (List.range' (past.length + 1) columns.length).countP (StepsFarIn c) +
          (List.range' (past.length + 1) columns.length).countP (StepsOutAstray c) := by
      have rest := ih (levels_step invariant column) List.getLast?_concat
      rwa [List.append_assoc, List.length_append] at rest
    rw [step_issues_cons invariant last, later, List.length_cons, List.range'_succ,
      List.countP_cons, List.countP_cons]
    simp only [decide_eq_true_eq, far, astray]
    omega

/- Lines by what they begin with. -/

def MixesBlanks (line : List Char) : Prop := ' ' ∈ lead line ∧ '\t' ∈ lead line

def OddlySpaced (line : List Char) : Prop := '\t' ∉ lead line ∧ (lead line).length % 2 = 1

def LedByTab (line : List Char) : Prop := line.head? = some '\t'

def LedBySpace (line : List Char) : Prop := line.head? = some ' '

instance : DecidablePred MixesBlanks :=
  fun line => inferInstanceAs (Decidable (' ' ∈ lead line ∧ '\t' ∈ lead line))

instance : DecidablePred OddlySpaced :=
  fun line => inferInstanceAs (Decidable ('\t' ∉ lead line ∧ (lead line).length % 2 = 1))

instance : DecidablePred LedByTab :=
  fun line => inferInstanceAs (Decidable (line.head? = some '\t'))

instance : DecidablePred LedBySpace :=
  fun line => inferInstanceAs (Decidable (line.head? = some ' '))

def leads (lines : List (List Char)) : List (List Char) := (lines.map lead).filter (!·.isEmpty)

theorem counted_leads (lines : List (List Char)) {p : List Char → Bool} {q : List Char → Prop}
    [DecidablePred q] (same : ∀ line, (p (lead line) = true ∧ lead line ≠ []) ↔ q line) :
    (leads lines).countP p = lines.countP q := by
  rw [leads, List.countP_filter, List.countP_map]
  apply List.countP_congr
  intro line member
  simp [← same]

theorem lead_cons (c : Char) (rest : List Char) :
    lead (c :: rest) = if c = ' ' ∨ c = '\t' then c :: lead rest else [] := by
  simp only [lead, List.takeWhile_cons, isSpaceOrTab, Bool.or_eq_true, decide_eq_true_eq]

theorem mixed_leads (lines : List (List Char)) :
    (leads lines).countP isMixed = lines.countP MixesBlanks := by
  apply counted_leads
  intro line
  rw [isMixed, Bool.and_eq_true, List.contains_iff_mem, List.contains_iff_mem, MixesBlanks,
    and_iff_left_iff_imp]
  rintro ⟨space, -⟩ none
  simp [none] at space

theorem odd_leads (lines : List (List Char)) :
    (leads lines).countP isOdd = lines.countP OddlySpaced := by
  apply counted_leads
  intro line
  have odd : isOdd (lead line) = true ↔ OddlySpaced line := by
    simp [isOdd, OddlySpaced]
  rw [odd, and_iff_left_iff_imp]
  rintro ⟨-, number⟩ none
  simp [none] at number

theorem tab_leads (lines : List (List Char)) :
    (leads lines).countP (·.head? = some '\t') = lines.countP LedByTab := by
  apply counted_leads
  intro line
  cases line with
  | nil => simp [lead, LedByTab]
  | cons c rest =>
    rw [lead_cons, LedByTab, List.head?_cons, Option.some.injEq]
    split
    · simp
    · rename_i visible
      rw [not_or] at visible
      simp [visible.2]

theorem other_leads (lines : List (List Char)) :
    (leads lines).countP (fun l => ¬ (l.head? = some '\t')) = lines.countP LedBySpace := by
  apply counted_leads
  intro line
  cases line with
  | nil => simp [lead, LedBySpace]
  | cons c rest =>
    rw [lead_cons, LedBySpace, List.head?_cons, Option.some.injEq]
    split
    · rename_i blank
      rcases blank with rfl | rfl
      · simp
      · simp
    · rename_i visible
      rw [not_or] at visible
      simp [visible.1]

/-- The indentation issues of a text are told by its lines and their columns alone. A step outwards
counts unless it goes back to the column of an earlier line that no line since has gone below. -/
theorem indentation_told_by_columns (text filename : String) :
    let lines := (Text.lines text.toList).filter (!Text.isBlankLine ·)
    let c := columnAt (0 :: lines.map Lexicon.indentColumns)
    let numbers := List.range' 1 lines.length
    (styleIssues (Source.prepare text filename)).indentation.total =
      lines.countP MixesBlanks + lines.countP OddlySpaced + numbers.countP (StepsFarIn c) +
        numbers.countP (StepsOutAstray c) +
        min (lines.countP LedByTab) (lines.countP LedBySpace) := by
  intro lines c numbers
  have steps : stepIssues 0 [0] (lines.map Lexicon.indentColumns) =
      numbers.countP (StepsFarIn c) + numbers.countP (StepsOutAstray c) := by
    have counted := step_issues_eq levels_of_text rfl (lines.map Lexicon.indentColumns)
    rwa [List.length_map] at counted
  have total : (styleIssues (Source.prepare text filename)).indentation.total =
      (leads lines).countP isMixed + (leads lines).countP isOdd +
        stepIssues 0 [0] (lines.map Lexicon.indentColumns) +
        min ((leads lines).countP (·.head? = some '\t'))
          ((leads lines).length - (leads lines).countP (·.head? = some '\t')) := rfl
  have spaced : (leads lines).length - (leads lines).countP (·.head? = some '\t') =
      lines.countP LedBySpace := by
    have others : (leads lines).length = _ + (leads lines).countP _ :=
      List.length_eq_countP_add_countP (·.head? = some '\t')
    simp only [decide_eq_true_eq, other_leads] at others
    omega
  rw [total, spaced, mixed_leads, odd_leads, tab_leads, steps]
  omega

/- Eight columns are no level that three come back to, and three spaces are odd. -/
example :
    (styleIssues (Source.prepare "if (a) \x7b\n        b();\n   c();\n\x7d\n" "a.c")).indentation.total =
      2 := by
  decide +kernel

end Authorship.Analysis
