import Authorship.Pattern

/-
File name patterns: `?` is one character of a name and `*` any number of them, `**` as a whole
component is any number of components, brackets hold a set of characters and braces hold
alternatives. Texts are matched byte by byte.
-/
namespace Authorship.Command

inductive Token where
  | literal (c : Char)
  | anyCharacter
  | anyCharacters
  | componentsBefore
  | componentsBetween
  | componentsAfter
  | oneIn (isNegated : Bool) (ranges : List (Char × Char))
  | choice (alternatives : List (List Token))
deriving Inhabited

abbrev Glob := List Token

namespace Glob

/-- Tokens read so far, the last first, and for each open brace the alternatives that are
complete and the tokens before it. -/
structure Progress where
  tokens : List Token
  outer : List (List (List Token) × List Token)
  hasLoneBracket : Bool

namespace Progress

def push (p : Progress) (t : Token) : Progress := { p with tokens := t :: p.tokens }

def enter (p : Progress) : Progress :=
  { p with tokens := [], outer := ([], p.tokens) :: p.outer }

def another (p : Progress) : Option Progress :=
  match p.outer with
  | [] => none
  | (complete, before) :: outer =>
    some { p with tokens := [], outer := (p.tokens.reverse :: complete, before) :: outer }

def leave (p : Progress) : Option Progress :=
  match p.outer with
  | [] => none
  | (complete, before) :: outer =>
    let token := .choice (p.tokens.reverse :: complete).reverse
    some { p with tokens := token :: before, outer }

def replaceLast (p : Progress) (t : Token) : Progress :=
  match p.tokens with
  | .componentsBefore :: _ | .componentsAfter :: _ => p
  | _ :: tokens => { p with tokens := t :: tokens }
  | [] => p.push t

def done (p : Progress) : Option Glob := if p.outer.isEmpty then some p.tokens.reverse else none

/-- What two stars mean here, given the character before them and the text behind them, and
whether they take the next character with them. -/
def twoStars (p : Progress) (before : Option Char) (behind : List Char) : Progress × Bool :=
  let next := behind.head?
  let plain := (p.push .anyCharacters).push .anyCharacters
  if p.tokens.isEmpty && (next.isNone || next = some '/') then (p.push .componentsBefore, true)
  else if p.tokens.isEmpty then (plain, false)
  else
    let opensAlternative := !p.outer.isEmpty && (before = some ',' || before = some '{')
    if before != some '/' && !opensAlternative then (plain, false)
    else if next.isNone then (p.replaceLast .componentsAfter, false)
    else if !p.outer.isEmpty && (next = some ',' || next = some '}') then
      (p.replaceLast .componentsAfter, false)
    else if next = some '/' then (p.replaceLast .componentsBetween, true)
    else (plain, false)

end Progress

inductive SetReading where
  | complete (token : Token) (rest : List Char)
  | unclosed
  | disordered

/-- A bracket set up to its end, after the ranges read so far, the last first. A hyphen between
two characters makes a range of them; a closing bracket that comes first stands for itself. -/
def readRanges (isNegated : Bool) (ranges : List (Char × Char)) (isRange isFirst : Bool) :
    List Char → SetReading
  | [] => .unclosed
  | c :: cs =>
    if c = ']' && !isFirst then
      .complete (.oneIn isNegated (if isRange then ('-', '-') :: ranges else ranges)) cs
    else if c = '-' && !isFirst && !isRange then readRanges isNegated ranges true false cs
    else
      match isRange, ranges with
      | true, (low, _) :: others =>
        if low ≤ c then readRanges isNegated ((low, c) :: others) false false cs else .disordered
      | _, _ => readRanges isNegated ((c, c) :: ranges) false false cs

def readSet : List Char → SetReading
  | '!' :: cs | '^' :: cs => readRanges true [] false true cs
  | cs => readRanges false [] false true cs

/-- The pattern is refused where a range runs downwards, even in a set without an end. Such a
set is read as its characters. -/
def readFrom : Nat → Option Char → Progress → List Char → Option Glob
  | 0, _, _, _ => none
  | _ + 1, _, p, [] => p.done
  | turns + 1, before, p, c :: cs =>
    let go := readFrom turns
    match c, cs with
    | '?', _ => go (some c) (p.push .anyCharacter) cs
    | '*', '*' :: rest =>
      let (next, takesSlash) := p.twoStars before rest
      if takesSlash then go (rest.head?.or (some '*')) next rest.tail else go (some '*') next rest
    | '*', _ => go (some c) (p.push .anyCharacters) cs
    | '[', _ =>
      if p.hasLoneBracket then go (some c) (p.push (.literal c)) cs
      else
        match readSet cs with
        | .complete token rest => go (some ']') (p.push token) rest
        | .unclosed => go (some c) { p.push (.literal c) with hasLoneBracket := true } cs
        | .disordered => none
    | '{', _ => go (some c) p.enter cs
    | '}', _ => p.leave.bind fun next => go (some c) next cs
    | ',', _ => go (some c) (p.another.getD (p.push (.literal c))) cs
    | '\\', escaped :: rest => go (some escaped) (p.push (.literal escaped)) rest
    | '\\', [] => none
    | _, _ => go (some c) (p.push (.literal c)) cs

def read (text : List Char) : Option Glob := readFrom (text.length + 1) none ⟨[], [], false⟩ text

def byteChars (text : String) : List Char :=
  text.toUTF8.toList.map fun byte => Char.ofNat byte.toNat

def anything : Pattern := Pattern.run fun _ => true

def slash : Pattern := .char '/'

/-- The bytes of a range: those of the two characters, and what lies between the last byte of
the one and the first of the other. -/
def byteRanges : Char × Char → List (Char × Char)
  | (low, high) =>
    let single (b : Char) := (b, b)
    let bytes := byteChars low.toString
    let others := byteChars high.toString
    if low = high then bytes.map single
    else
      match bytes.reverse, others with
      | first :: before, last :: after =>
        before.map single ++ (first, last) :: after.map single
      | _, _ => []

def isWithin (ranges : List (Char × Char)) (c : Char) : Bool :=
  ranges.any fun (low, high) => low ≤ c && c ≤ high

mutual

def tokenPatterns : Token → List Pattern
  | .literal c => (byteChars c.toString).map .char
  | .anyCharacter => [.satisfying (· != '/')]
  | .anyCharacters => [.run (· != '/')]
  | .componentsBefore => [.oneOf [.optional slash, .sequence [anything, slash]]]
  | .componentsBetween => [.oneOf [slash, .sequence [slash, anything, slash]]]
  | .componentsAfter => [slash, anything]
  | .oneIn isNegated ranges =>
    let bytes := ranges.flatMap byteRanges
    [.satisfying fun c => isWithin bytes c != isNegated]
  | .choice alternatives =>
    match alternativePatterns alternatives with
    | [] => []
    | patterns => [.oneOf patterns]

def sequencePatterns : List Token → List Pattern
  | [] => []
  | t :: ts => tokenPatterns t ++ sequencePatterns ts

def alternativePatterns : List (List Token) → List Pattern
  | [] => []
  | alternative :: alternatives =>
    match sequencePatterns alternative with
    | [] => alternativePatterns alternatives
    | patterns => .sequence patterns :: alternativePatterns alternatives

end

def accepts (g : Glob) (path : List Char) : Bool :=
  match g with
  | [.componentsBefore] => true
  | _ => Pattern.covers (.sequence (sequencePatterns g)) (byteChars (String.ofList path))

end Glob

end Authorship.Command
