import Stencil.Number.Shortest

/-!
# Numbers

A number is an integer or a double, and the two are different values even where they are equal as
numbers: `1` and `1.0`.
-/

namespace Stencil

/-- An integer or a double. -/
inductive Number where
  | integer (value : Int)
  | double (value : Double)
  deriving DecidableEq, Repr

namespace Number

/-- The least integer that is kept as an integer. -/
def minInteger : Int := -0x8000000000000000

/-- The largest integer that is kept as an integer. -/
def maxInteger : Int := 0xFFFFFFFFFFFFFFFF

/-- Whether two numbers are the same value. Zero with either sign is one value. -/
protected def beq : Number → Number → Bool
  | .integer a, .integer b => a = b
  | .double x, .double y => x == y
  | _, _ => false

instance : BEq Number := ⟨Number.beq⟩

/-- Whether the number is zero. -/
def isZero : Number → Bool
  | .integer a => a = 0
  | .double x => x.isZero

/-- Doubles are written with a plus sign before a positive exponent. -/
def style : Decimal.Style := ⟨true⟩

/-- The text of a number. -/
def text : Number → String
  | .integer a => toString a
  | .double x => String.ofList (Decimal.text style x)

end Number

end Stencil
