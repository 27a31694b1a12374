import Authorship.Text.Lines

/-
One pass over a text gives every character its role. What is code, what a literal holds, which
lines carry a comment and what the line comments say are all read off the roles.
-/
namespace Authorship.Source

inductive Quote where
  | single
  | double
deriving DecidableEq, Repr

def Quote.char : Quote → Char
  | .single => '\''
  | .double => '"'

inductive Mode where
  | code
  | lineComment
  | blockComment
  | literal (quote : Quote)
deriving DecidableEq, Repr

/-- The quotes of literals are code. An opener is the first character of its pair, `comment` is the
text of a line comment, and `hidden` is whatever else stands in comments. -/
inductive Role where
  | code
  | content
  | lineOpener
  | blockOpener
  | comment
  | hidden
  | closer
  | newline (inBlock : Bool)
deriving DecidableEq, Repr

structure Mark where
  char : Char
  role : Role
deriving DecidableEq, Repr

/-- An escape takes the next character with it, but never a newline, and a literal that is not
closed ends with its line. -/
def scan : Mode → List Char → List Mark
  | _, [] => []
  | .code, '\n' :: cs => ⟨'\n', .newline false⟩ :: scan .code cs
  | .code, '/' :: '/' :: cs => ⟨'/', .lineOpener⟩ :: ⟨'/', .hidden⟩ :: scan .lineComment cs
  | .code, '/' :: '*' :: cs => ⟨'/', .blockOpener⟩ :: ⟨'*', .hidden⟩ :: scan .blockComment cs
  | .code, '"' :: cs => ⟨'"', .code⟩ :: scan (.literal .double) cs
  | .code, '\'' :: cs => ⟨'\'', .code⟩ :: scan (.literal .single) cs
  | .code, c :: cs => ⟨c, .code⟩ :: scan .code cs
  | .lineComment, '\n' :: cs => ⟨'\n', .newline false⟩ :: scan .code cs
  | .lineComment, c :: cs => ⟨c, .comment⟩ :: scan .lineComment cs
  | .blockComment, '\n' :: cs => ⟨'\n', .newline true⟩ :: scan .blockComment cs
  | .blockComment, '*' :: '/' :: cs => ⟨'*', .hidden⟩ :: ⟨'/', .closer⟩ :: scan .code cs
  | .blockComment, c :: cs => ⟨c, .hidden⟩ :: scan .blockComment cs
  | .literal _, '\n' :: cs => ⟨'\n', .newline false⟩ :: scan .code cs
  | .literal _, '\\' :: '\n' :: cs => ⟨'\\', .content⟩ :: ⟨'\n', .newline false⟩ :: scan .code cs
  | .literal q, '\\' :: c :: cs => ⟨'\\', .content⟩ :: ⟨c, .content⟩ :: scan (.literal q) cs
  | .literal q, c :: cs =>
    if c = q.char then ⟨c, .code⟩ :: scan .code cs else ⟨c, .content⟩ :: scan (.literal q) cs

/-- A closed block comment leaves one space behind, and comments keep their newlines. -/
def codeChar? (m : Mark) : Option Char :=
  match m.role with
  | .code | .content | .newline _ => some m.char
  | .closer => some ' '
  | .lineOpener | .blockOpener | .comment | .hidden => none

def maskedChar? (m : Mark) : Option Char :=
  match m.role with
  | .code | .newline _ => some m.char
  | .content | .closer => some ' '
  | .lineOpener | .blockOpener | .comment | .hidden => none

def codeText (marks : List Mark) : List Char := marks.filterMap codeChar?

def maskedText (marks : List Mark) : List Char := marks.filterMap maskedChar?

def lineComments : List Mark → List (List Char)
  | [] => []
  | m :: marks =>
    if m.role = .lineOpener then
      ((marks.drop 1).takeWhile (·.role = .comment)).map (·.char) :: lineComments marks
    else lineComments marks

/-- For each line, the piece after a last newline too, whether a comment begins on it or reaches
into it. -/
def commentFlags (flag : Bool) : List Mark → List Bool
  | [] => [flag]
  | m :: marks =>
    match m.role with
    | .newline inBlock => flag :: commentFlags inBlock marks
    | .lineOpener | .blockOpener => commentFlags true marks
    | _ => commentFlags flag marks

end Authorship.Source
