import Criteria.Binary64

/-!
Decimal numbers, and the shortest one that rounds to a given binary64 value. The reals that round to
a value form an interval around it; of the decimal grids `10 ^ k`, the coarsest with a point in that
interval has the fewest digits, and of its points the nearest to the value is taken.
-/

namespace Criteria.Decimal

/-- The number that decimal digits stand for. -/
def ofDigits (digits : List Char) : Nat :=
  digits.foldl (fun n c => 10 * n + (c.toNat - '0'.toNat)) 0

/-- The decimal number `digits * 10 ^ exponent`. -/
structure Scaled where
  digits : Nat
  exponent : Int
deriving DecidableEq, Repr

namespace Shortest

/-- The reals that round to a positive binary64 value, in units of `2 ^ unit`: from `low` to `high`
around `value`. The ends belong to it when the value's significand is even. -/
structure Interval where
  low : Nat
  value : Nat
  high : Nat
  unit : Int
  closed : Bool

/-- The interval of a magnitude. Below a power of two the neighbour is half as far. -/
def Interval.ofMagnitude (m : Binary64.Magnitude) : Interval where
  low := if m.significand = Binary64.fractionCount ∧ -1074 < m.exponent then 4 * m.significand - 1
    else 4 * m.significand - 2
  value := 4 * m.significand
  high := 4 * m.significand + 2
  unit := m.exponent - 2
  closed := m.significand % 2 = 0

/-- Compares on a common scale: a number of units against a number of steps of `10 ^ k`. -/
def unitsScale (i : Interval) (k : Int) : Nat :=
  Nat.pow 2 i.unit.toNat * Nat.pow 10 (-k).toNat

def stepsScale (i : Interval) (k : Int) : Nat :=
  Nat.pow 10 k.toNat * Nat.pow 2 (-i.unit).toNat

/-- True when `steps * 10 ^ k` lies in the interval. -/
def holds (i : Interval) (k : Int) (steps : Nat) : Bool :=
  let point := steps * stepsScale i k
  let low := i.low * unitsScale i k
  let high := i.high * unitsScale i k
  if i.closed then low ≤ point && point ≤ high else low < point && point < high

/-- The point of the grid `10 ^ k` that lies in the interval, the nearer one if both neighbours of
the value do, and the even one of two equally near. -/
def gridPoint? (i : Interval) (k : Int) : Option Scaled :=
  let value := i.value * unitsScale i k
  let step := stepsScale i k
  let below := value / step
  let toBelow := value - below * step
  let toAbove := (below + 1) * step - value
  let first := if toBelow < toAbove ∨ (toBelow = toAbove ∧ below % 2 = 0) then below else below + 1
  let second := if first = below then below + 1 else below
  if first ≠ 0 ∧ holds i k first then some ⟨first, k⟩
  else if second ≠ 0 ∧ holds i k second then some ⟨second, k⟩
  else none

/-- Searches from the grid `10 ^ k` to finer ones. -/
def search (i : Interval) : Nat → Int → Scaled
  | 0, k => ⟨i.value, k⟩
  | steps + 1, k =>
    match gridPoint? i k with
    | some point => point
    | none => search i steps (k - 1)

/-- An exponent of ten above every point of the interval. -/
def upperExponent (i : Interval) : Int :=
  ((i.high.log2 : Int) + i.unit) * 3 / 10 + 3

end Shortest

/-- The shortest decimal that rounds to the magnitude, and of those the nearest to it. The
value lies on the grid of its own power of two, so the search ends there at the latest. -/
def shortest (m : Binary64.Magnitude) : Scaled :=
  let i := Shortest.Interval.ofMagnitude m
  let first := Shortest.upperExponent i
  Shortest.search i (first - min 0 i.unit + 1).toNat first

end Criteria.Decimal
