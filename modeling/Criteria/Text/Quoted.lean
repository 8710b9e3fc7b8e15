import Criteria.Text.Printable

/-!
Strings in quotes on one line, as they stand in error messages and inspections. Reading such a text
back is never ambiguous: whatever cannot be seen is written as its code point.
-/

namespace Criteria.Text

/-- A code point as `\u` and its lower-case hexadecimal digits in braces. -/
def codePoint (c : Char) : String :=
  "\\u\x7b" ++ String.ofList (Nat.toDigits 16 c.toNat) ++ "\x7d"

def quotedChar (c : Char) : String :=
  if c = '\x00' then "\\0"
  else if c = '\t' then "\\t"
  else if c = '\r' then "\\r"
  else if c = '\n' then "\\n"
  else if c = '"' then "\\\""
  else if c = '\\' then "\\\\"
  else if isPrintable c then c.toString
  else codePoint c

def quoted (s : String) : String :=
  "\"" ++ String.join (s.toList.map quotedChar) ++ "\""

end Criteria.Text
