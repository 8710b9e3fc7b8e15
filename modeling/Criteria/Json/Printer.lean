import Criteria.Json.Basic
import Criteria.Decimal.Layout

/-!
The text of a JSON value: compact, without any space, and pretty, with one line for each element.
-/

namespace Criteria

namespace Number

/-- Doubles have a point from `0.00001` up to sixteen digits before it, and an exponent beyond. -/
def layout : Decimal.Layout := ⟨-5, 15⟩

/-- The text of a number. A double always shows a point or an exponent, an integer neither. -/
def text : Number → String
  | .int n => toString n
  | .double bits =>
    let sign := if Binary64.isNegative bits then "-" else ""
    let magnitude := Binary64.magnitude bits
    if magnitude.significand = 0 then sign ++ "0.0"
    else sign ++ layout.text (Decimal.shortest magnitude)

end Number

namespace Json

/-- A digit of a lower-case hexadecimal number. -/
def hexDigit (n : Nat) : Char :=
  Nat.digitChar (n % 16)

/-- A character inside a string. Quotes, backslashes and the control characters below the space
are escaped, and nothing else. -/
def escapeChar (c : Char) : String :=
  if c = '"' then "\\\""
  else if c = '\\' then "\\\\"
  else if c = '\x08' then "\\b"
  else if c = '\t' then "\\t"
  else if c = '\n' then "\\n"
  else if c = '\x0c' then "\\f"
  else if c = '\r' then "\\r"
  else if c.toNat < 0x20 then
    "\\u00" ++ String.ofList [hexDigit (c.toNat / 16), hexDigit c.toNat]
  else c.toString

def quote (s : String) : String :=
  "\"" ++ String.join (s.toList.map escapeChar) ++ "\""

mutual

def text : Json → String
  | .null => "null"
  | .bool b => if b then "true" else "false"
  | .num n => n.text
  | .str s => quote s
  | .arr items => "[" ++ ",".intercalate (itemTexts items) ++ "]"
  | .obj entries => "\x7b" ++ ",".intercalate (entryTexts entries) ++ "\x7d"

def itemTexts : List Json → List String
  | [] => []
  | item :: rest => item.text :: itemTexts rest

def entryTexts : List (String × Json) → List String
  | [] => []
  | (key, value) :: rest => (quote key ++ ":" ++ value.text) :: entryTexts rest

end

/-- A line break followed by two spaces for each level. -/
def newline (level : Nat) : String :=
  "\n" ++ "".pushn ' ' (2 * level)

/-- Elements on lines of their own between two brackets; nothing stands between the brackets of an
empty container. -/
def block (opening closing : String) (level : Nat) : List String → String
  | [] => opening ++ closing
  | items =>
    opening ++ newline (level + 1) ++ ("," ++ newline (level + 1)).intercalate items
      ++ newline level ++ closing

mutual

/-- The pretty text of a value that stands at a level of nesting. -/
def prettyAt (level : Nat) : Json → String
  | .arr items => block "[" "]" level (prettyItems (level + 1) items)
  | .obj entries => block "\x7b" "\x7d" level (prettyEntries (level + 1) entries)
  | value => value.text

def prettyItems (level : Nat) : List Json → List String
  | [] => []
  | item :: rest => item.prettyAt level :: prettyItems level rest

def prettyEntries (level : Nat) : List (String × Json) → List String
  | [] => []
  | (key, value) :: rest =>
    (quote key ++ ": " ++ value.prettyAt level) :: prettyEntries level rest

end

def pretty (value : Json) : String :=
  value.prettyAt 0

end Json

end Criteria
