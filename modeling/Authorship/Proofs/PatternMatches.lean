import Authorship.Pattern
import Mathlib.Computability.Language

/-
The texts that patterns match, as languages, and where the matches in a text stand: each is a part
of the text, and none begins before the one on its left has ended.
-/
namespace Authorship

structure Cursor.Reads (a : Cursor) (cs : List Char) (b : Cursor) : Prop where
  before : b.before = a.before
  taken : b.taken = cs.reverse ++ a.taken
  ahead : a.ahead = cs ++ b.ahead

namespace Cursor

theorem reads_nothing (a : Cursor) : a.Reads [] a := ⟨rfl, rfl, rfl⟩

theorem reads_one (before taken ahead : List Char) (c : Char) :
    Reads ⟨before, taken, c :: ahead⟩ [c] ⟨before, c :: taken, ahead⟩ := ⟨rfl, rfl, rfl⟩

variable {a b c : Cursor} {xs ys : List Char}

theorem Reads.append (first : a.Reads xs b) (second : b.Reads ys c) : a.Reads (xs ++ ys) c where
  before := second.before.trans first.before
  taken := by simp [second.taken, first.taken]
  ahead := by simp [first.ahead, second.ahead]

theorem Reads.text_to (read : a.Reads xs b) : a.textTo b = xs := by
  simp [textTo, read.taken]

end Cursor

namespace Pattern

variable {p : Pattern} {ps : List Pattern} {a b : Cursor}

theorem mem_sequence_cons :
    b ∈ sequence (p :: ps) a ↔ ∃ between ∈ p a, b ∈ sequence ps between := by
  cases ps with
  | nil => simp [sequence, nothing]
  | cons q ps => simp [sequence, from_each_eq_flat_map]

theorem mem_one_of : b ∈ oneOf ps a ↔ ∃ p ∈ ps, b ∈ p a := by
  induction ps with
  | nil => simp [oneOf]
  | cons p ps ih =>
    cases ps with
    | nil => simp [oneOf]
    | cons q ps => simp [oneOf, ih]

/-- The text that the pattern takes, wherever it begins, is in the language. -/
def Spells (p : Pattern) (L : Language Char) : Prop :=
  ∀ a b, b ∈ p a → ∃ cs ∈ L, a.Reads cs b

variable {L M : Language Char}

theorem Spells.mono (spells : Spells p L) (more : ∀ cs ∈ L, cs ∈ M) : Spells p M := by
  intro a b led
  obtain ⟨cs, inside, read⟩ := spells a b led
  exact ⟨cs, more cs inside, read⟩

theorem Spells.any (spells : Spells p L) : Spells p ⊤ := spells.mono fun _ _ => trivial

theorem spells_nothing : Spells (sequence []) 1 := by
  intro a b led
  obtain rfl : b = a := List.mem_singleton.mp led
  exact ⟨[], Language.nil_mem_one, b.reads_nothing⟩

theorem Spells.last (spells : Spells p L) : Spells (sequence [p]) L := spells

theorem Spells.cons (first : Spells p L) (rest : Spells (sequence ps) M) :
    Spells (sequence (p :: ps)) (L * M) := by
  intro a c led
  obtain ⟨b, led, led'⟩ := mem_sequence_cons.mp led
  obtain ⟨xs, inside, read⟩ := first a b led
  obtain ⟨ys, inside', read'⟩ := rest b c led'
  exact ⟨xs ++ ys, Language.append_mem_mul inside inside', read.append read'⟩

theorem spells_one_of (spells : ∀ p ∈ ps, Spells p L) : Spells (oneOf ps) L := by
  intro a b led
  obtain ⟨p, member, led⟩ := mem_one_of.mp led
  exact spells p member a b led

theorem Spells.optional (spells : Spells p L) : Spells (optional p) (L + 1) := by
  refine spells_one_of (List.forall_mem_cons.mpr ⟨?_, List.forall_mem_singleton.mpr ?_⟩)
  · exact spells.mono fun cs inside => Or.inl inside
  · exact spells_nothing.mono fun cs inside => Or.inr inside

def allOf (q : Char → Bool) : Language Char := {cs | ∀ c ∈ cs, q c = true}

def anyOf (texts : List (List Char)) : Language Char := {cs | cs ∈ texts}

theorem spells_satisfying (q : Char → Bool) :
    Spells (satisfying q) {cs | ∃ c, q c = true ∧ cs = [c]} := by
  rintro ⟨before, taken, _ | ⟨c, ahead⟩⟩ b led
  · simp [satisfying] at led
  · obtain ⟨holds, rfl⟩ : q c = true ∧ b = ⟨before, c :: taken, ahead⟩ := by
      simpa [satisfying] using led
    exact ⟨[c], ⟨c, holds, rfl⟩, Cursor.reads_one before taken ahead c⟩

theorem spells_char (c : Char) : Spells (char c) (anyOf [[c]]) := by
  refine (spells_satisfying (· == c)).mono ?_
  rintro cs ⟨d, same, rfl⟩
  rw [beq_iff_eq.mp same]
  exact List.mem_singleton_self [c]

theorem expect_reads {before taken ahead cs : List Char}
    (led : expect before taken cs ahead = some b) : Cursor.Reads ⟨before, taken, ahead⟩ cs b := by
  fun_induction expect before taken cs ahead with
  | case1 taken ahead =>
    cases led
    exact Cursor.reads_nothing _
  | case2 => cases led
  | case3 taken cs d ahead ih => exact (Cursor.reads_one before taken ahead d).append (ih led)
  | case4 => cases led

theorem spells_literals (texts : List (List Char)) : Spells (literals texts) (anyOf texts) := by
  intro a b led
  induction texts with
  | nil => simp [literals] at led
  | cons cs texts ih =>
    have rest (led : b ∈ literals texts a) : ∃ ds ∈ anyOf (cs :: texts), a.Reads ds b := by
      obtain ⟨ds, member, read⟩ := ih led
      exact ⟨ds, List.mem_cons_of_mem cs member, read⟩
    rw [literals] at led
    split at led
    · rename_i next first
      rcases List.mem_cons.mp led with rfl | led
      · exact ⟨cs, List.mem_cons_self, expect_reads first⟩
      · exact rest led
    · exact rest led

theorem spells_literal (text : String) : Spells (literal text) (anyOf [text.toList]) :=
  spells_literals [text.toList]

/- Runs. A longer run goes before the shorter ones of the same text. -/

variable {q : Char → Bool}

theorem Reads.more {before taken ahead : List Char} {c : Char} (holds : q c = true)
    (read : ∃ cs ∈ allOf q, Cursor.Reads ⟨before, c :: taken, ahead⟩ cs b) :
    ∃ cs ∈ allOf q, Cursor.Reads ⟨before, taken, c :: ahead⟩ cs b := by
  obtain ⟨cs, all, read⟩ := read
  exact ⟨c :: cs, List.forall_mem_cons.mpr ⟨holds, all⟩,
    (Cursor.reads_one before taken ahead c).append read⟩

theorem no_more (a : Cursor) : ∃ cs ∈ allOf q, a.Reads cs a :=
  ⟨[], List.forall_mem_nil _, a.reads_nothing⟩

theorem longest_run_reads {before taken ahead : List Char} {shorter : List Cursor}
    (led : b ∈ longestRun q before taken ahead shorter) :
    b ∈ shorter ∨ ∃ cs ∈ allOf q, Cursor.Reads ⟨before, taken, ahead⟩ cs b := by
  fun_induction longestRun q before taken ahead shorter with
  | case1 taken shorter =>
    rcases List.mem_cons.mp led with rfl | led
    · exact Or.inr (no_more _)
    · exact Or.inl led
  | case2 taken shorter c rest holds ih =>
    rcases ih led with led | read
    · rcases List.mem_cons.mp led with rfl | led
      · exact Or.inr (no_more _)
      · exact Or.inl led
    · exact Or.inr (Reads.more holds read)
  | case3 taken shorter c rest fails =>
    rcases List.mem_cons.mp led with rfl | led
    · exact Or.inr (no_more _)
    · exact Or.inl led

theorem spells_run (q : Char → Bool) : Spells (run q) (allOf q) := by
  intro a b led
  rcases longest_run_reads led with led | read
  · simp at led
  · exact read

theorem spells_lazy_run (q : Char → Bool) : Spells (lazyRun q) (allOf q) := by
  rintro ⟨before, taken, ahead⟩ b led
  simp only [lazyRun] at led
  fun_induction shortestRun q before taken ahead with
  | case1 taken =>
    obtain rfl := List.mem_singleton.mp led
    exact no_more _
  | case2 taken c rest ih =>
    rcases List.mem_cons.mp led with rfl | led
    · exact no_more _
    · split at led
      · exact Reads.more ‹_› (ih led)
      · simp at led

theorem span_from_reads (q : Char → Bool) (before taken ahead : List Char) :
    ∃ cs ∈ allOf q, Cursor.Reads ⟨before, taken, ahead⟩ cs (spanFrom q before taken ahead) := by
  fun_induction spanFrom q before taken ahead with
  | case1 taken => exact no_more _
  | case2 taken c rest holds ih => exact Reads.more holds ih
  | case3 taken c rest fails => exact no_more _

theorem spells_span (q : Char → Bool) : Spells (span q) (allOf q) := by
  intro a b led
  obtain rfl := List.mem_singleton.mp led
  exact span_from_reads q a.before a.taken a.ahead

theorem span_ends (led : b ∈ span q a) : b.ahead.head?.any q = false := by
  obtain rfl := List.mem_singleton.mp led
  fun_induction spanFrom q a.before a.taken a.ahead with
  | case1 taken => rfl
  | case2 taken c rest holds ih => exact ih
  | case3 taken c rest fails => simpa using fails

theorem all_of_mul (first : ∀ cs ∈ L, cs ∈ allOf q) (second : ∀ cs ∈ M, cs ∈ allOf q) :
    ∀ cs ∈ L * M, cs ∈ allOf q := by
  intro cs inside
  obtain ⟨xs, inX, ys, inY, rfl⟩ := Language.mem_mul.mp inside
  exact List.forall_mem_append.mpr ⟨first xs inX, second ys inY⟩

theorem spells_nonempty_run (spells : Spells p (allOf q)) :
    Spells (sequence [satisfying q, p]) (allOf q) := by
  refine ((spells_satisfying q).cons spells.last).mono (all_of_mul ?_ fun _ inside => inside)
  rintro cs ⟨c, holds, rfl⟩
  exact List.forall_mem_singleton.mpr holds

theorem repeated_reads (spells : Spells p L) (turns : Nat) {fewer : List Cursor}
    (led : b ∈ repeated p turns a fewer) : b ∈ fewer ∨ ∃ cs ∈ KStar.kstar L, a.Reads cs b := by
  have none (a : Cursor) : ∃ cs ∈ KStar.kstar L, a.Reads cs a :=
    ⟨[], Language.nil_mem_kstar L, a.reads_nothing⟩
  induction turns generalizing a fewer with
  | zero =>
    rcases List.mem_cons.mp led with rfl | led
    · exact Or.inr (none _)
    · exact Or.inl led
  | succ turns ih =>
    have once {nexts : List Cursor} (sound : ∀ next ∈ nexts, next ∈ p a)
        (led : b ∈ nexts.foldr (fun next rest => repeated p turns next rest) (a :: fewer)) :
        b ∈ fewer ∨ ∃ cs ∈ KStar.kstar L, a.Reads cs b := by
      induction nexts with
      | nil =>
        rcases List.mem_cons.mp led with rfl | led
        · exact Or.inr (none _)
        · exact Or.inl led
      | cons next nexts ih' =>
        obtain ⟨first, sound⟩ := List.forall_mem_cons.mp sound
        rcases ih led with led | ⟨ys, inside', read'⟩
        · exact ih' sound led
        · obtain ⟨xs, inside, read⟩ := spells a next first
          have grows : L * KStar.kstar L ≤ KStar.kstar L := mul_kstar_le_kstar
          exact Or.inr ⟨xs ++ ys, grows (Language.append_mem_mul inside inside'),
            read.append read'⟩
    exact once (fun _ member => member) led

theorem Spells.many (spells : Spells p L) : Spells (many p) (KStar.kstar L) := by
  intro a b led
  rcases repeated_reads spells a.ahead.length led with led | read
  · simp at led
  · exact read

theorem boundary_stays (led : b ∈ boundary a) : b = a := by
  unfold boundary at led
  split at led <;> simp_all

theorem spells_boundary : Spells boundary 1 := by
  intro a b led
  obtain rfl := boundary_stays led
  exact ⟨[], Language.nil_mem_one, b.reads_nothing⟩

/-- A word that a match begins with at a boundary is not the end of a longer one. -/
theorem boundary_before {before ahead : List Char}
    (led : b ∈ boundary ⟨before, [], ahead⟩) (within : ahead.head?.any Text.isWord = true) :
    before.head?.any Text.isWord = false := by
  unfold boundary at led
  cases isWordBefore : before.head?.any Text.isWord <;> simp_all

/-- A match of a pattern with what stands around it in the text. -/
structure MatchIn (p : Pattern) (text : List Char) (m : Match) : Prop where
  text_eq : text = m.before.reverse ++ (m.text ++ m.after)
  led : ∃ stop ∈ p m.start, m.start.Reads m.text stop

theorem MatchIn.text_mem {text : List Char} {m : Match} (fits : MatchIn p text m)
    (spells : Spells p L) : m.text ∈ L := by
  obtain ⟨stop, led, read⟩ := fits.led
  obtain ⟨cs, inside, read'⟩ := spells m.start stop led
  rwa [← read.text_to, read'.text_to]

variable {before ahead : List Char} {covered : Nat}

theorem match_at (spells : Spells p L) {m : Match} (found : matchAt? p before ahead = some m) :
    m.before = before ∧ MatchIn p (before.reverse ++ ahead) m := by
  obtain ⟨stop, first, rfl⟩ := Option.map_eq_some_iff.mp found
  have led : stop ∈ p ⟨before, [], ahead⟩ := List.mem_of_mem_head? first
  obtain ⟨cs, inside, read⟩ := spells _ _ led
  have text : stop.taken.reverse = cs := by simp [read.taken]
  have rest : ahead = cs ++ stop.ahead := read.ahead
  refine ⟨rfl, by rw [text, ← rest], stop, ?_, ?_⟩
  · rw [Match.start, text, ← rest]
    exact led
  · rw [Match.start, text, ← rest]
    exact read

theorem matches_from_fit (spells : Spells p L) :
    ∀ m ∈ matchesFrom p before covered ahead, MatchIn p (before.reverse ++ ahead) m := by
  fun_induction matchesFrom p before covered ahead with
  | case1 => simp
  | case2 before c ahead n ih => simpa using ih
  | case3 before c ahead none ih => simpa using ih
  | case4 before c ahead m found ih =>
    exact List.forall_mem_cons.mpr ⟨(match_at spells found).2, by simpa using ih⟩

theorem all_matches_fit (spells : Spells p L) {text : List Char} :
    ∀ m ∈ allMatches p text, MatchIn p text m := matches_from_fit spells

theorem matches_from_begin (spells : Spells p L) :
    ∀ m ∈ matchesFrom p before covered ahead, before.length + covered ≤ m.before.length := by
  fun_induction matchesFrom p before covered ahead with
  | case1 => simp
  | case2 before c ahead n ih =>
    intro m member
    have := ih m member
    rw [List.length_cons] at this
    omega
  | case3 before c ahead none ih =>
    intro m member
    have := ih m member
    rw [List.length_cons] at this
    omega
  | case4 before c ahead m found ih =>
    refine List.forall_mem_cons.mpr ⟨by rw [(match_at spells found).1]; rfl, ?_⟩
    intro m' member
    have := ih m' member
    rw [List.length_cons] at this
    omega

theorem matches_from_apart (spells : Spells p L) : (matchesFrom p before covered ahead).Pairwise
    fun m m' => m.before.length + m.text.length ≤ m'.before.length := by
  fun_induction matchesFrom p before covered ahead with
  | case1 => exact .nil
  | case2 before c ahead n ih => exact ih
  | case3 before c ahead none ih => exact ih
  | case4 before c ahead m found ih =>
    refine .cons (fun m' member => ?_) ih
    have begins := matches_from_begin spells m' member
    rw [(match_at spells found).1]
    rw [List.length_cons] at begins
    omega

theorem all_matches_apart (spells : Spells p L) (text : List Char) : (allMatches p text).Pairwise
    fun m m' => m.before.length + m.text.length ≤ m'.before.length := matches_from_apart spells

theorem matches_from_length : (matchesFrom p before covered ahead).length ≤ ahead.length := by
  fun_induction matchesFrom p before covered ahead with
  | case1 => simp
  | case2 before c ahead n ih => exact ih.trans (Nat.le_succ _)
  | case3 before c ahead none ih => exact ih.trans (Nat.le_succ _)
  | case4 before c ahead m found ih => exact Nat.succ_le_succ ih

theorem count_matches_le (p : Pattern) (text : List Char) : countMatches p text ≤ text.length :=
  matches_from_length

end Pattern

end Authorship
