import Criteria.Json.Basic
import Criteria.Decimal.Shortest

/-!
The tokens of a JSON text. A string or number can be well formed as a token and still stand for no
value: a string with half of a surrogate pair, a number beyond the range of binary64. Such tokens
carry no value, so that a reader which skips them need not care.
-/

namespace Criteria.Json

/-- A token. `fault` stands where the text is no token; nothing follows it. -/
inductive Token where
  | openBrace
  | closeBrace
  | openBracket
  | closeBracket
  | colon
  | comma
  | null
  | bool (b : Bool)
  | num (value : Option Number)
  | str (value : Option String)
  | fault
deriving Repr

namespace Token

/-- The characters that may stand between tokens. -/
def isBlank (c : Char) : Bool :=
  c = ' ' || c = '\t' || c = '\n' || c = '\r'

/-- What a string token is made of: characters, and code units written as four digits. -/
inductive Piece where
  | char (c : Char)
  | unit (n : Nat)

/-- The value of a hexadecimal digit of either case. -/
def hexValue? (c : Char) : Option Nat :=
  if '0' ≤ c ∧ c ≤ '9' then some (c.toNat - '0'.toNat)
  else if 'a' ≤ c ∧ c ≤ 'f' then some (c.toNat - 'a'.toNat + 10)
  else if 'A' ≤ c ∧ c ≤ 'F' then some (c.toNat - 'A'.toNat + 10)
  else none

/-- The code unit of four hexadecimal digits. -/
def codeUnit? (a b c d : Char) : Option Nat := do
  let a ← hexValue? a
  let b ← hexValue? b
  let c ← hexValue? c
  let d ← hexValue? d
  return ((a * 16 + b) * 16 + c) * 16 + d

/-- The character that a backslash and one more character stand for. -/
def unescape? : Char → Option Char
  | '"' => some '"'
  | '\\' => some '\\'
  | '/' => some '/'
  | 'b' => some '\x08'
  | 'f' => some '\x0c'
  | 'n' => some '\n'
  | 'r' => some '\r'
  | 't' => some '\t'
  | _ => none

/-- The pieces of a string up to its closing quote, and how many characters they and the quote
take. A control character, an unknown escape and a missing quote make it no string. -/
def stringPieces? : List Char → Option (List Piece × Nat)
  | [] => none
  | '"' :: _ => some ([], 1)
  | '\\' :: 'u' :: a :: b :: c :: d :: rest => do
    let unit ← codeUnit? a b c d
    let (pieces, taken) ← stringPieces? rest
    return (.unit unit :: pieces, taken + 6)
  | '\\' :: c :: rest => do
    let char ← unescape? c
    let (pieces, taken) ← stringPieces? rest
    return (.char char :: pieces, taken + 2)
  | c :: rest =>
    if c < ' ' then none
    else do
      let (pieces, taken) ← stringPieces? rest
      return (.char c :: pieces, taken + 1)

/-- The first half of a surrogate pair. -/
def isHighSurrogate (n : Nat) : Bool :=
  0xd800 ≤ n && n < 0xdc00

/-- The second half of a surrogate pair. -/
def isLowSurrogate (n : Nat) : Bool :=
  0xdc00 ≤ n && n < 0xe000

/-- The characters of a string, after a first half that waits for its second. A half that stands
alone leaves the string without a value. -/
def joinPieces? : Option Nat → List Piece → Option (List Char)
  | none, [] => some []
  | none, .char c :: rest => (c :: ·) <$> joinPieces? none rest
  | none, .unit n :: rest =>
    if isHighSurrogate n then joinPieces? (some n) rest
    else if isLowSurrogate n then none
    else (Char.ofNat n :: ·) <$> joinPieces? none rest
  | some high, .unit n :: rest =>
    if isLowSurrogate n then
      (Char.ofNat (0x10000 + (high - 0xd800) * 0x400 + (n - 0xdc00)) :: ·)
        <$> joinPieces? none rest
    else none
  | some _, _ => none

/-- The string token whose opening quote has been taken. -/
def string? (cs : List Char) : Option (Token × Nat) := do
  let (pieces, taken) ← stringPieces? cs
  return (.str ((joinPieces? none pieces).map String.ofList), taken)

/-- The parts of a number as written. -/
structure NumberText where
  negative : Bool
  whole : List Char
  fraction : Option (List Char)
  exponent : Option (Bool × List Char)

/-- The digits in front, at least one. -/
def digits? (cs : List Char) : Option (List Char) :=
  match cs.takeWhile Char.isDigit with
  | [] => none
  | digits => some digits

/-- The digits before the point: a zero alone, or digits that start with another. -/
def whole? (cs : List Char) : Option (List Char) := do
  let digits ← digits? cs
  if digits.head? = some '0' ∧ 1 < digits.length then none else some digits

/-- The exponent behind its letter, and how many characters it takes. -/
def exponent? : List Char → Option ((Bool × List Char) × Nat)
  | '-' :: rest => (digits? rest).map fun ds => ((true, ds), ds.length + 1)
  | '+' :: rest => (digits? rest).map fun ds => ((false, ds), ds.length + 1)
  | rest => (digits? rest).map fun ds => ((false, ds), ds.length)

/-- The fraction in front, if there is a point, and how many characters it takes. -/
def fractionPart? : List Char → Option (Option (List Char) × Nat)
  | '.' :: rest => (digits? rest).map fun ds => (some ds, ds.length + 1)
  | _ => some (none, 0)

/-- The exponent in front, if there is its letter, and how many characters it takes. -/
def exponentPart? : List Char → Option (Option (Bool × List Char) × Nat)
  | c :: rest =>
    if c = 'e' ∨ c = 'E' then (exponent? rest).map fun (e, taken) => (some e, taken + 1)
    else some (none, 0)
  | [] => some (none, 0)

/-- The parts of the number in front, and how many characters it takes. -/
def numberText? (cs : List Char) : Option (NumberText × Nat) := do
  let negative := cs.head? = some '-'
  let cs := if negative then cs.drop 1 else cs
  let whole ← whole? cs
  let cs := cs.drop whole.length
  let (fraction, fractionTaken) ← fractionPart? cs
  let cs := cs.drop fractionTaken
  let (exponent, exponentTaken) ← exponentPart? cs
  let sign := if negative then 1 else 0
  return (⟨negative, whole, fraction, exponent⟩,
    sign + whole.length + fractionTaken + exponentTaken)

/-- Appends digits to a significand while it fits a machine word, and what is left of them. -/
def appendDigits : Nat → List Char → Nat × List Char
  | significand, [] => (significand, [])
  | significand, c :: rest =>
    let next := 10 * significand + (c.toNat - '0'.toNat)
    if next < UInt64.size then appendDigits next rest else (significand, c :: rest)

/-- The double that is read for a written number; none beyond the greatest finite one. Digits that
the significand has no room for only scale it in the whole part, and count for nothing in the
fraction. -/
def NumberText.double? (t : NumberText) : Option Number := do
  let fraction := t.fraction.getD []
  let (whole, scaling) := appendDigits 0 t.whole
  let (significand, dropped) := appendDigits whole fraction
  let written : Int := match t.exponent with
    | none => 0
    | some (true, digits) => -(Decimal.ofDigits digits)
    | some (false, digits) => Decimal.ofDigits digits
  let exponent := written + scaling.length - (fraction.length - dropped.length : Nat)
  let bits ← Binary64.ofDecimal significand exponent
  return .double (if t.negative then Binary64.negate bits else bits)

/-- The value of a written number. Without fraction and exponent it is an integer while it fits a
machine word; a negative zero and all others are doubles. -/
def NumberText.value? (t : NumberText) : Option Number :=
  if t.fraction.isNone ∧ t.exponent.isNone then
    let n := Decimal.ofDigits t.whole
    if t.negative then
      if n ≠ 0 ∧ n ≤ UInt64.size / 2 then some (.int (-n)) else t.double?
    else if n < UInt64.size then some (.int n) else t.double?
  else t.double?

def number? (cs : List Char) : Option (Token × Nat) := do
  let (text, taken) ← numberText? cs
  return (.num text.value?, taken)

/-- The token of a word, if the text starts with it. -/
def word? (word : String) (token : Token) (cs : List Char) : Option (Token × Nat) :=
  if word.toList.isPrefixOf cs then some (token, word.length) else none

/-- The token in front, and how many characters it takes. -/
def first? : List Char → Option (Token × Nat)
  | '\x7b' :: _ => some (.openBrace, 1)
  | '\x7d' :: _ => some (.closeBrace, 1)
  | '[' :: _ => some (.openBracket, 1)
  | ']' :: _ => some (.closeBracket, 1)
  | ':' :: _ => some (.colon, 1)
  | ',' :: _ => some (.comma, 1)
  | '"' :: rest => (string? rest).map fun (token, taken) => (token, taken + 1)
  | 'n' :: rest => word? "null" .null ('n' :: rest)
  | 't' :: rest => word? "true" (.bool true) ('t' :: rest)
  | 'f' :: rest => word? "false" (.bool false) ('f' :: rest)
  | cs => number? cs

/-- The tokens of a text behind its first `skip` characters, up to the first fault. -/
def listFrom : Nat → List Char → List Token
  | _, [] => []
  | skip + 1, _ :: rest => listFrom skip rest
  | 0, c :: rest =>
    if isBlank c then listFrom 0 rest
    else match first? (c :: rest) with
      | none => [.fault]
      | some (token, taken) => token :: listFrom (taken - 1) rest

/-- The tokens of a text, up to the first fault. -/
def ofText (text : String) : List Token :=
  listFrom 0 text.toList

end Token

end Criteria.Json
