/-
Which closing brace belongs to which opening one, by position. Nothing here hangs on what the
positions hold, bytes or characters.
-/
namespace Authorship.Lexicon

section

variable {α : Type} [DecidableEq α] (opening closing : α)

/-- One pass with the positions still open, innermost first. Braces without a partner on either
side are passed over. -/
def pairBraces (position : Nat) (opened : List Nat) : List α → List (Nat × Nat)
  | [] => []
  | x :: xs =>
    if x = opening then pairBraces (position + 1) (position :: opened) xs
    else if x = closing then
      match opened with
      | [] => pairBraces (position + 1) [] xs
      | start :: outer => (start, position) :: pairBraces (position + 1) outer xs
    else pairBraces (position + 1) opened xs

def bracePairs (xs : List α) : List (Nat × Nat) := pairBraces opening closing 0 [] xs

end

end Authorship.Lexicon
