import Stencil.Number.Double

/-!
# The shortest decimal of a double

Among the decimals that round to a double, the ones with the fewest digits are wanted, and of these
the nearest one; of two equally near ones the one whose last digit is even.

For a number of digits there are only two decimals to look at, the neighbours of the double on the
grid of decimals with that many digits: if any decimal of the grid rounds to the double, one of them
does. So the digits are found by trying one digit, two digits, and so on; seventeen are enough for
any double.
-/

namespace Stencil

/-- The decimal `digits · 10 ^ exponent`. -/
structure Decimal where
  /-- The digits, read as a natural number. -/
  digits : Nat
  /-- The power of ten that the last digit stands for. -/
  exponent : Int
  deriving DecidableEq, Repr

namespace Decimal

/-- A power of ten as a ratio of natural numbers. -/
def powerOfTen (exponent : Int) : Nat × Nat :=
  (Nat.pow 10 exponent.toNat, Nat.pow 10 (-exponent).toNat)

/-- Whether a ratio is in the interval of numbers that round to the double. The interval reaches
half way to the neighbours of the double; its ends belong to it if the significand is even. Below a
power of two the neighbour is at half the distance. -/
def roundsTo (x : Double) (numerator denominator : Nat) : Bool :=
  -- in units of a quarter of the double's own unit
  let value := 4 * x.significand
  let isLeast := x.significand = Nat.pow 2 (Double.precision - 1)
  let low := if isLeast && Double.minExponent < x.exponent then value - 1 else value - 2
  let unit := Double.powerOfTwo x.exponent
  let scaled := 4 * numerator * unit.2
  let one := denominator * unit.1
  if x.significand % 2 = 0 then low * one ≤ scaled && scaled ≤ (value + 2) * one
  else low * one < scaled && scaled < (value + 2) * one

/-- The exponent of the first digit of a positive ratio: the ratio is at least that power of ten and
less than the next. -/
def leadingExponent (numerator denominator : Nat) : Int :=
  let guess : Int := (Nat.toDigits 10 numerator).length - (Nat.toDigits 10 denominator).length
  let power := powerOfTen guess
  if numerator * power.2 < denominator * power.1 then guess - 1 else guess

/-- The nearest decimal with the last digit at `exponent` that rounds to the double, if its
neighbours on that grid do. -/
def onGrid? (x : Double) (exponent : Int) : Option Decimal :=
  let power := powerOfTen exponent
  let numerator := x.magnitude.1 * power.2
  let denominator := x.magnitude.2 * power.1
  let below := numerator / denominator
  let twice := 2 * (numerator % denominator)
  let fits (digits : Nat) : Bool := roundsTo x (digits * power.1) power.2
  let belowIsNearer := twice < denominator || (twice = denominator && below % 2 = 0)
  let pair := if belowIsNearer then (below, below + 1) else (below + 1, below)
  if fits pair.1 then some ⟨pair.1, exponent⟩
  else if fits pair.2 then some ⟨pair.2, exponent⟩
  else none

/-- The first of the grids with `digits`, `digits + 1`, and so on, `more` of them, that holds a
decimal that rounds to the double. -/
def search (x : Double) (leading : Int) (digits : Nat) : Nat → Decimal
  | 0 => ⟨0, 0⟩
  | more + 1 =>
    match onGrid? x (leading - digits + 1) with
    | some decimal => decimal
    | none => search x leading (digits + 1) more

/-- The shortest decimal of a double, without its sign. The upper neighbour on the grid of one digit
may be ten, which is written with one digit in the next place. -/
def shortest (x : Double) : Decimal :=
  if x.isZero then ⟨0, 0⟩
  else
    let decimal := search x (leadingExponent x.magnitude.1 x.magnitude.2) 1 17
    if decimal.digits = 10 then ⟨1, decimal.exponent + 1⟩ else decimal

/-- How a number in exponent notation is written. -/
structure Style where
  /-- Whether a plus sign stands before a positive exponent. -/
  plusSign : Bool

/-- The least exponent of a number that is written without an exponent. -/
def minPositional : Int := -5

/-- The least exponent of a number that is too large to be written without an exponent. -/
def maxPositional : Int := 16

/-- The text of a double: its shortest decimal, with a point and at least one digit after it, or in
exponent notation if the first digit is too far from the point. -/
def text (style : Style) (x : Double) : List Char :=
  let decimal := shortest x
  let digits := Nat.toDigits 10 decimal.digits
  let leading : Int := decimal.exponent + digits.length - 1
  let zeros (count : Int) : List Char := List.replicate count.toNat '0'
  let sign := if x.negative then ['-'] else []
  if x.isZero then sign ++ ['0', '.', '0']
  else if minPositional ≤ leading && leading < 0 then
    sign ++ '0' :: '.' :: zeros (-leading - 1) ++ digits
  else if 0 ≤ leading && leading < maxPositional then
    if 0 ≤ decimal.exponent then sign ++ digits ++ zeros decimal.exponent ++ ['.', '0']
    else
      sign ++ digits.take (leading.toNat + 1) ++ '.' :: digits.drop (leading.toNat + 1)
  else
    let fraction := match digits.drop 1 with | [] => [] | ds => '.' :: ds
    let exponentSign := if leading < 0 then ['-'] else if style.plusSign then ['+'] else []
    sign ++ digits.take 1 ++ fraction ++ 'e' :: exponentSign ++ Nat.toDigits 10 leading.natAbs

end Decimal

end Stencil
