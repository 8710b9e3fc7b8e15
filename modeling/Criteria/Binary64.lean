/-!
Binary64 values as exact dyadic numbers, and the binary64 value that is read for a decimal. All of
it is arithmetic on natural numbers, so that a value can be reasoned about through its bits.
-/

namespace Criteria.Binary64

/-- The first bit pattern without sign that is not finite. -/
def infinity : Nat := 0x7ff0000000000000

def signBit : Nat := 0x8000000000000000

/-- The number of fractions; the bits above them are the exponent field. -/
def fractionCount : Nat := 0x10000000000000

/-- The number of exponent fields; the bit above them is the sign. -/
def fieldCount : Nat := 0x800

/-- True of the bit patterns of negative values, `-0.0` among them. -/
def isNegative (bits : UInt64) : Bool :=
  decide (signBit ≤ bits.toNat)

def negate (bits : UInt64) : UInt64 :=
  .ofNat ((bits.toNat + signBit) % UInt64.size)

/-- A finite value without its sign: `significand * 2 ^ exponent`. -/
structure Magnitude where
  significand : Nat
  exponent : Int
deriving DecidableEq, Repr

/-- The magnitude that the bits stand for. Subnormal values share the least exponent. -/
def magnitude (bits : UInt64) : Magnitude :=
  let field : Nat := bits.toNat / fractionCount % fieldCount
  let fraction : Nat := bits.toNat % fractionCount
  if field = 0 then ⟨fraction, -1074⟩
  else ⟨fractionCount + fraction, (field : Int) - 1075⟩

/-- The quotient rounded to the nearest integer, a half going to the even neighbour. -/
def roundHalfEven (num den : Nat) : Nat :=
  let quotient := num / den
  let excess := 2 * (num % den)
  if den < excess ∨ (excess = den ∧ quotient % 2 = 1) then quotient + 1 else quotient

/-- The exponent of the greatest power of two not above `num / den`, for positive arguments. -/
def floorLog2 (num den : Nat) : Int :=
  let estimate : Int := (num.log2 : Int) - (den.log2 : Int)
  if den * Nat.pow 2 estimate.toNat ≤ num * Nat.pow 2 (-estimate).toNat then estimate
  else estimate - 1

/-- The bits nearest to the positive value `num / den`; none when it rounds beyond the greatest
finite value. The significand is rounded on the grid of its exponent, and a carry out of it moves
into the exponent field by itself. -/
def ofRatio (num den : Nat) : Option UInt64 :=
  let exponent := max (-1074) (floorLog2 num den - 52)
  let significand :=
    roundHalfEven (num * Nat.pow 2 (-exponent).toNat) (den * Nat.pow 2 exponent.toNat)
  let bits := (exponent + 1074).toNat * fractionCount + significand
  if bits < infinity then some (.ofNat bits) else none

/-- The bits nearest to `num / den * 2 ^ exponent`; none beyond the greatest finite value. -/
def ofScaled (num den : Nat) (exponent : Int) : Option UInt64 :=
  if num = 0 then some 0
  else ofRatio (num * Nat.pow 2 exponent.toNat) (den * Nat.pow 2 (-exponent).toNat)

/-- The product of two values without sign, rounded; none when it is infinite. -/
def mul (x y : UInt64) : Option UInt64 :=
  let m := magnitude x
  let n := magnitude y
  ofScaled (m.significand * n.significand) 1 (m.exponent + n.exponent)

/-- The quotient of two values without sign, rounded. The divisor is not zero. -/
def div (x y : UInt64) : Option UInt64 :=
  let m := magnitude x
  let n := magnitude y
  ofScaled m.significand n.significand (m.exponent - n.exponent)

/-- A power of ten, rounded. -/
def powerOfTen (k : Nat) : Option UInt64 :=
  ofScaled (Nat.pow 10 k) 1 0

/-- The exponent of the greatest finite power of ten. -/
def greatestPower : Nat := 308

/-- The value multiplied by `10 ^ k`. -/
def mulPower (bits : UInt64) (k : Nat) : Option UInt64 :=
  if k ≤ greatestPower then do mul bits (← powerOfTen k)
  else if bits = 0 then some 0
  else none

/-- The value divided by `10 ^ k`, in several steps where that power is not finite. -/
def divPower (bits : UInt64) (k : Nat) : Option UInt64 :=
  if k ≤ greatestPower then do div bits (← powerOfTen k)
  else if bits = 0 then some 0
  else do divPower (← div bits (← powerOfTen greatestPower)) (k - greatestPower)
termination_by k
decreasing_by
  simp only [greatestPower] at *
  omega

/-- The value that is read for `digits * 10 ^ exponent`; none when it is too large. The digits are
rounded first and the result of the scaling again, so it is not always the nearest one. -/
def ofDecimal (digits : Nat) (exponent : Int) : Option UInt64 := do
  let bits ← ofScaled digits 1 0
  match exponent with
  | .ofNat k => mulPower bits k
  | .negSucc k => divPower bits (k + 1)

end Criteria.Binary64
