/- Bytes as text in UTF-8. -/
namespace Authorship.Text

/-- A sequence that has begun. The range of the next byte excludes spellings that are too long,
surrogates, and what is beyond the last character. -/
structure Begun where
  missing : Nat
  low : Nat
  high : Nat
  bits : Nat
deriving DecidableEq, Repr

def begun? (byte : Nat) : Option Begun :=
  if byte < 0xC2 then none
  else if byte < 0xE0 then some ⟨1, 0x80, 0xBF, byte - 0xC0⟩
  else if byte < 0xF0 then
    some ⟨2, if byte = 0xE0 then 0xA0 else 0x80, if byte = 0xED then 0x9F else 0xBF, byte - 0xE0⟩
  else if byte < 0xF5 then
    some ⟨3, if byte = 0xF0 then 0x90 else 0x80, if byte = 0xF4 then 0x8F else 0xBF, byte - 0xF0⟩
  else none

def decodeFirst (byte : Nat) : List (Option Char) × Option Begun :=
  if byte < 0x80 then ([some (Char.ofNat byte)], none)
  else
    match begun? byte with
    | some s => ([], some s)
    | none => ([none], none)

def decodeNext (s : Begun) (byte : Nat) : List (Option Char) × Option Begun :=
  if s.low ≤ byte && byte ≤ s.high then
    let bits := s.bits * 64 + (byte - 0x80)
    if s.missing = 1 then ([some (Char.ofNat bits)], none)
    else ([], some ⟨s.missing - 1, 0x80, 0xBF, bits⟩)
  else
    let (first, state) := decodeFirst byte
    (none :: first, state)

def decodeFrom : Option Begun → List UInt8 → List (Option Char)
  | none, [] => []
  | some _, [] => [none]
  | state, byte :: bytes =>
    let (decoded, next) := match state with
      | none => decodeFirst byte.toNat
      | some s => decodeNext s byte.toNat
    decoded ++ decodeFrom next bytes

/-- The characters, with `none` for every longest sequence that is no character. -/
def decodeUtf8 (bytes : List UInt8) : List (Option Char) := decodeFrom none bytes

def replacement : Char := '\uFFFD'

def readable (bytes : List UInt8) : String :=
  String.ofList ((decodeUtf8 bytes).map (·.getD replacement))

def strict? (bytes : List UInt8) : Option String :=
  ((decodeUtf8 bytes).mapM id).map String.ofList

end Authorship.Text
