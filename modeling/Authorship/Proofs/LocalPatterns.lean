import Authorship.Proofs.PatternPlaces

/-
Patterns read a text alike wherever it stands, as long as no word runs into it: of what stands
before a match only the last character is seen, and of that only whether it is one of a word.
-/
namespace Authorship

def Cursor.past (behind : List Char) (a : Cursor) : Cursor :=
  { a with before := a.before ++ behind }

namespace Pattern

def Match.past (behind : List Char) (m : Match) : Match := { m with before := m.before ++ behind }

def Local (behind : List Char) (p : Pattern) : Prop :=
  ∀ a : Cursor, p (a.past behind) = (p a).map (·.past behind)

variable {behind : List Char} {p : Pattern} {q : Char → Bool}

theorem satisfying_local : Local behind (satisfying q) := by
  rintro ⟨before, taken, ahead⟩
  cases ahead with
  | nil => rfl
  | cons c ahead =>
    rw [Cursor.past, satisfying, satisfying]
    split <;> rfl

theorem expect_past (cs before taken ahead : List Char) :
    expect (before ++ behind) taken cs ahead =
      (expect before taken cs ahead).map (·.past behind) := by
  fun_induction expect before taken cs ahead with
  | case1 taken ahead => rw [expect]; rfl
  | case2 taken => rw [expect]; rfl
  | case3 taken cs d ahead ih => rw [expect, if_pos rfl, ih]
  | case4 taken c cs d ahead other => rw [expect, if_neg other]; rfl

theorem literals_local {texts : List (List Char)} : Local behind (literals texts) := by
  rintro ⟨before, taken, ahead⟩
  induction texts with
  | nil => rfl
  | cons cs texts ih =>
    have same : expect (before ++ behind) taken cs ahead = _ := expect_past cs before taken ahead
    rw [Cursor.past] at ih
    rw [Cursor.past, literals, literals, same]
    dsimp only at ih ⊢
    cases expect before taken cs ahead with
    | none => exact ih
    | some next => exact congrArg (Cursor.past behind next :: ·) ih

theorem span_local : Local behind (span q) := by
  rintro ⟨before, taken, ahead⟩
  have ends : spanFrom q (before ++ behind) taken ahead =
      (spanFrom q before taken ahead).past behind := by
    fun_induction spanFrom q before taken ahead with
    | case1 taken => rfl
    | case2 taken c rest holds ih => rw [spanFrom, if_pos holds, ih]
    | case3 taken c rest fails => rw [spanFrom, if_neg fails]; rfl
  exact congrArg (fun place => [place]) ends

theorem sequence_local {ps : List Pattern} (each : ∀ p ∈ ps, Local behind p) :
    Local behind (sequence ps) := by
  induction ps with
  | nil =>
    intro a
    rfl
  | cons p ps ih =>
    obtain ⟨first, others⟩ := List.forall_mem_cons.mp each
    intro a
    have later : ∀ next : Cursor, sequence ps (next.past behind) =
        (sequence ps next).map (·.past behind) := ih others
    rw [sequence_cons, sequence_cons, first a, List.flatMap_map, List.map_flatMap]
    exact congrArg (List.flatMap · (p a)) (funext later)

theorem repeated_local (each : Local behind p) (turns : Nat) (a : Cursor) (fewer : List Cursor) :
    repeated p turns (a.past behind) (fewer.map (·.past behind)) =
      (repeated p turns a fewer).map (·.past behind) := by
  induction turns generalizing a fewer with
  | zero => rfl
  | succ turns ih =>
    rw [repeated, repeated, each a]
    induction p a with
    | nil => rfl
    | cons next nexts ih' => rw [List.map_cons, List.foldr_cons, List.foldr_cons, ih', ih]

theorem many_local (each : Local behind p) : Local behind (many p) :=
  fun a => repeated_local each a.ahead.length a []

theorem boundary_local (apart : behind.head?.any Text.isWord = false) :
    Local behind boundary := by
  intro a
  have same : (a.taken ++ (a.before ++ behind)).head?.any Text.isWord =
      (a.taken ++ a.before).head?.any Text.isWord := by
    rw [← List.append_assoc]
    cases a.taken ++ a.before with
    | nil => exact apart
    | cons c cs => rfl
  rw [boundary_at, boundary_at, Cursor.past, same]
  split <;> rfl

theorem matches_from_past (each : Local behind p) (before : List Char) (covered : Nat)
    (ahead : List Char) : matchesFrom p (before ++ behind) covered ahead =
      (matchesFrom p before covered ahead).map (Match.past behind) := by
  have found (before ahead : List Char) : matchAt? p (before ++ behind) ahead =
      (matchAt? p before ahead).map (Match.past behind) := by
    have here : p ⟨before ++ behind, [], ahead⟩ = _ := each ⟨before, [], ahead⟩
    rw [matchAt?, here, List.head?_map, Option.map_map, matchAt?, Option.map_map]
    rfl
  induction ahead generalizing before covered with
  | nil => rfl
  | cons c ahead ih =>
    cases covered with
    | succ covered => exact ih (c :: before) covered
    | zero =>
      rw [matchesFrom, matchesFrom, found]
      cases matchAt? p before (c :: ahead) with
      | none => exact ih (c :: before) 0
      | some m => exact congrArg (m.past behind :: ·) (ih (c :: before) (m.text.length - 1))

end Pattern

end Authorship
