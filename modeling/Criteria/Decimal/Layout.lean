import Criteria.Decimal.Shortest

/-!
Where the point stands in a decimal's text, and when an exponent is written instead.
-/

namespace Criteria.Decimal

/-- A decimal is written positionally while the exponent of its first digit lies between the two
bounds, and with an exponent otherwise. -/
structure Layout where
  leastPositional : Int
  greatestPositional : Int

namespace Layout

/-- The digits with the point inside or after them; a zero follows a point at the end. -/
def positional (digits : String) (first : Int) : String :=
  if first < 0 then
    "0." ++ "".pushn '0' (-first - 1).toNat ++ digits
  else
    let whole := first.toNat + 1
    let cs := digits.toList
    if cs.length ≤ whole then digits ++ "".pushn '0' (whole - cs.length) ++ ".0"
    else String.ofList (cs.take whole) ++ "." ++ String.ofList (cs.drop whole)

/-- One digit, the point and the others if there are any, and the signed exponent. -/
def scientific (digits : String) (first : Int) : String :=
  let cs := digits.toList
  let fraction := if cs.length ≤ 1 then "" else "." ++ String.ofList (cs.drop 1)
  let sign := if first < 0 then "-" else "+"
  String.ofList (cs.take 1) ++ fraction ++ "e" ++ sign ++ toString first.natAbs

/-- The text of a positive decimal. -/
def text (layout : Layout) (d : Scaled) : String :=
  let digits := toString d.digits
  let first := d.exponent + digits.length - 1
  if layout.leastPositional ≤ first ∧ first ≤ layout.greatestPositional then
    positional digits first
  else scientific digits first

end Layout

end Criteria.Decimal
