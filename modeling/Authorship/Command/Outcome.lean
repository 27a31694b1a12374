import Authorship.Command.Disk
import Authorship.Decimal.Text

/- What a command leaves behind: files, output, and an exit code with an error text. -/
namespace Authorship.Command

open Decimal

structure Outcome where
  disk : Disk
  exitCode : Nat
  output : String
  errors : String

/-- A failure with what caused it, the nearest cause first. -/
structure Trouble where
  message : String
  causes : List String
deriving DecidableEq, Repr

def numberedCauses (number : Nat) : List String → String
  | [] => ""
  | cause :: causes =>
    "\n" ++ padLeft 5 (natText number) ++ ": " ++ cause ++ numberedCauses (number + 1) causes

def Trouble.text (t : Trouble) : String :=
  "Error: " ++ t.message ++ (match t.causes with
    | [] => ""
    | [cause] => "\n\nCaused by:\n    " ++ cause
    | causes => "\n\nCaused by:" ++ numberedCauses 0 causes) ++ "\n"

namespace Outcome

def failed (disk : Disk) (output : String) (t : Trouble) : Outcome := ⟨disk, 1, output, t.text⟩

def succeeded (disk : Disk) (output : String) : Outcome := ⟨disk, 0, output, ""⟩

end Outcome

end Authorship.Command
