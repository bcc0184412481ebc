/-!
# Doubles

A finite 64 bit floating point number is `± significand · 2 ^ exponent`. A number is kept in one
form: the significand has 53 bits, or fewer at the least exponent. So two doubles are the same
number if their fields agree, zero with its two signs aside.

Every operation is exact arithmetic on natural numbers and one rounding at the end (`round?`): to
the nearest double, of two nearest ones to the one with the even significand.
-/

namespace Stencil

/-- A finite 64 bit floating point number. -/
structure Double where
  /-- Whether the sign is negative. Zero has a sign, too. -/
  negative : Bool
  /-- The number without its sign, in units of `2 ^ exponent`. -/
  significand : Nat
  /-- The exponent of the unit. -/
  exponent : Int
  deriving DecidableEq, Repr

namespace Double

/-- The number of bits of a significand. -/
def precision : Nat := 53

/-- The exponent of the smallest unit. -/
def minExponent : Int := -1074

/-- The exponent of the largest unit. -/
def maxExponent : Int := 971

/-- Zero, with a sign. -/
def zero (negative : Bool) : Double := ⟨negative, 0, minExponent⟩

/-- Whether the number is zero, of either sign. -/
def isZero (x : Double) : Bool := x.significand = 0

/-- Whether two doubles are the same number. -/
protected def beq (x y : Double) : Bool := (x.isZero && y.isZero) || x = y

instance : BEq Double := ⟨Double.beq⟩

/-- The power of two, as a ratio of natural numbers. -/
def powerOfTwo (exponent : Int) : Nat × Nat :=
  (Nat.pow 2 exponent.toNat, Nat.pow 2 (-exponent).toNat)

/-- The number without its sign, as a ratio of natural numbers. -/
def magnitude (x : Double) : Nat × Nat :=
  (x.significand * (powerOfTwo x.exponent).1, (powerOfTwo x.exponent).2)

/-- The quotient rounded to the nearest natural number, a half to the even neighbour. -/
def roundedQuotient (numerator denominator : Nat) : Nat :=
  let quotient := numerator / denominator
  let twice := 2 * (numerator % denominator)
  if denominator < twice || (twice = denominator && quotient % 2 = 1) then quotient + 1
  else quotient

/-- The exponent of the unit in which the ratio has a significand of 53 bits, but no less than the
least exponent. -/
def unitExponent (numerator denominator : Nat) : Int :=
  let guess : Int := (numerator.log2 : Int) - denominator.log2 - (precision - 1 : Nat)
  let unit := powerOfTwo guess
  let exponent :=
    if numerator * unit.2 < Nat.pow 2 (precision - 1) * (denominator * unit.1) then guess - 1
    else guess
  max exponent minExponent

/-- The double nearest to a ratio, with the given sign; none if it is beyond the largest double. -/
def round? (negative : Bool) (numerator denominator : Nat) : Option Double :=
  if numerator = 0 then some (zero negative)
  else
    let exponent := unitExponent numerator denominator
    let unit := powerOfTwo exponent
    let significand := roundedQuotient (numerator * unit.2) (denominator * unit.1)
    let x : Double :=
      if significand = Nat.pow 2 precision then ⟨negative, Nat.pow 2 (precision - 1), exponent + 1⟩
      else ⟨negative, significand, exponent⟩
    if x.exponent ≤ maxExponent then some x else none

/-- The double nearest to a natural number. -/
def ofNat? (n : Nat) : Option Double :=
  round? false n 1

/-- The double nearest to the product, with the sign of the left factor. -/
def mul? (x y : Double) : Option Double :=
  round? x.negative (x.magnitude.1 * y.magnitude.1) (x.magnitude.2 * y.magnitude.2)

/-- The double nearest to the quotient, with the sign of the dividend. -/
def div? (x y : Double) : Option Double :=
  round? x.negative (x.magnitude.1 * y.magnitude.2) (x.magnitude.2 * y.magnitude.1)

/-- The same number with the other sign. -/
def neg (x : Double) : Double := { x with negative := !x.negative }

/-- The largest power of ten that is kept as a double. -/
def maxPowerOfTen : Nat := 308

/-- The double nearest to a power of ten. -/
def powerOfTen? (exponent : Nat) : Option Double :=
  ofNat? (Nat.pow 10 exponent)

/-- The double nearest to `digits · 10 ^ exponent`, with a sign; none if it is beyond the largest
double. A decimal exponent that is out of the question is not computed with. -/
def ofDecimal? (negative : Bool) (digits : Nat) (exponent : Int) : Option Double :=
  let places : Int := (Nat.toDigits 10 digits).length
  if digits = 0 || places + exponent < -330 then some (zero negative)
  else if 310 < places + exponent then none
  else round? negative (digits * Nat.pow 10 exponent.toNat) (Nat.pow 10 (-exponent).toNat)

end Double

end Stencil
