import Authorship.Text.CharacterTable

/- Classes of characters, by Unicode property. ASCII is decided without a table. -/
namespace Authorship.Text

open CharacterTable

/-- The ranges ascend, so the search stops at the first one that ends at or after the character. -/
def within (point : Nat) : List (Nat × Nat) → Bool
  | [] => false
  | (first, last) :: rest => if point ≤ last then decide (first ≤ point) else within point rest

/-- White space, in the sense of the Unicode property of that name. -/
def isBlank (c : Char) : Bool :=
  c = ' ' || (9 ≤ c.toNat && c.toNat ≤ 13) ||
    (128 ≤ c.toNat &&
      within c.toNat [(0x85, 0x85), (0xA0, 0xA0), (0x1680, 0x1680), (0x2000, 0x200A),
        (0x2028, 0x2029), (0x202F, 0x202F), (0x205F, 0x205F), (0x3000, 0x3000)])

/-- ASCII white space, to which the vertical tab does not belong. -/
def isAsciiBlank (c : Char) : Bool :=
  c = ' ' || c = '\t' || c = '\n' || c = '\x0c' || c = '\r'

def isDecimalDigit (c : Char) : Bool :=
  if c.toNat < 128 then c.isDigit else within c.toNat decimalDigits

/-- A letter, an alphabetic mark or a number of any kind, as of Unicode 17. -/
def isAlphanumeric (c : Char) : Bool :=
  if c.toNat < 128 then c.isAlphanum
  else [alphabetic, decimalDigits, otherNumbers, addedAlphanumerics].any (within c.toNat)

/-- What a word consists of, as of Unicode 16: letters, marks, decimal digits, connectors such as
the underscore. -/
def isWord (c : Char) : Bool :=
  if c.toNat < 128 then c.isAlphanum || c = '_'
  else within c.toNat alphabetic || within c.toNat marks || within c.toNat decimalDigits

def isNameStart (c : Char) : Bool := c.isAlpha || c = '_'

def isAsciiWord (c : Char) : Bool := c.isAlphanum || c = '_'

/-- Equality up to case with a lower-case ASCII letter. Two letters beyond ASCII fold into it:
the long s and the Kelvin sign. -/
def foldsTo (lower c : Char) : Bool :=
  c.toLower = lower || (lower = 's' && c = '\u017f') || (lower = 'k' && c = '\u212a')

end Authorship.Text
