import Stencil.Number
import Stencil.Text.Identifier

/-!
# Numbers in JSON

A JSON number is read in two steps: its parts, and their value. A number without fraction and
exponent that fits into 64 bits is an integer; only `-0` is a double. Any other number is a double.
Its digits are taken as long as they fit into 64 bits, the others are dropped; the digits are then
scaled by a power of ten. Digits, power and result are rounded one after the other, so that the
result may be a neighbour of the nearest double. A number beyond the largest double is none.
-/

namespace Stencil.Json

/-- A number as it is written. -/
structure NumberText where
  /-- Whether a minus sign stands before it. -/
  negative : Bool
  /-- The digits before the point. -/
  whole : List Char
  /-- The digits after the point, if there is a point. -/
  fraction : Option (List Char)
  /-- Whether the exponent is negative, and its digits, if there is an exponent. -/
  exponent : Option (Bool × List Char)
  deriving DecidableEq, Repr

/-- Decimal digits at the start of a text, at least one, and what follows them. -/
def digits? (text : List Char) : Option (List Char × List Char) :=
  match text.takeWhile Char.isDigit with
  | [] => none
  | digits => some (digits, text.dropWhile Char.isDigit)

/-- A point and digits at the start of a text, if it starts with a point. -/
def fraction? (text : List Char) : Option (Option (List Char) × List Char) :=
  match text with
  | '.' :: rest => (digits? rest).map fun (digits, rest) => (some digits, rest)
  | _ => some (none, text)

/-- An exponent at the start of a text, if it starts with its mark. -/
def exponent? (text : List Char) : Option (Option (Bool × List Char) × List Char) :=
  match text with
  | c :: rest =>
    if c = 'e' || c = 'E' then
      match rest with
      | '-' :: rest => (digits? rest).map fun (digits, rest) => (some (true, digits), rest)
      | '+' :: rest => (digits? rest).map fun (digits, rest) => (some (false, digits), rest)
      | _ => (digits? rest).map fun (digits, rest) => (some (false, digits), rest)
    else some (none, text)
  | [] => some (none, text)

/-- A number at the start of a text, and what follows it. No zero stands before other digits. -/
def NumberText.read? (text : List Char) : Option (NumberText × List Char) := do
  let (negative, text) := match text with | '-' :: rest => (true, rest) | _ => (false, text)
  let (whole, rest) ← digits? text
  if whole.head? = some '0' && 1 < whole.length then none
  else
    let (fraction, rest) ← fraction? rest
    let (exponent, rest) ← exponent? rest
    some (⟨negative, whole, fraction, exponent⟩, rest)

/-- The largest number that digits are collected in. -/
def maxDigits : Nat := 0xFFFFFFFFFFFFFFFF

/-- Collects digits as long as the number fits: the number, how many digits it took, and the digits
that are left. -/
def collect (taken number : Nat) : List Char → Nat × Nat × List Char
  | [] => (number, taken, [])
  | c :: cs =>
    if 10 * number + Text.digitValue c ≤ maxDigits then
      collect (taken + 1) (10 * number + Text.digitValue c) cs
    else (number, taken, c :: cs)

/-- The double times a power of ten; none if it is beyond the largest double. -/
def scale? (x : Double) (exponent : Int) : Option Double :=
  if exponent.natAbs ≤ Double.maxPowerOfTen then
    (Double.powerOfTen? exponent.natAbs).bind fun power =>
      if 0 ≤ exponent then x.mul? power else x.div? power
  else if x.isZero then some x
  else if 0 ≤ exponent then none
  else
    (Double.powerOfTen? Double.maxPowerOfTen).bind fun power =>
      (x.div? power).bind fun y => scale? y (exponent + Double.maxPowerOfTen)
termination_by exponent.natAbs
decreasing_by
  simp only [Double.maxPowerOfTen] at *
  omega

/-- The value of a number that is not an integer. -/
def NumberText.double? (n : NumberText) : Option Double := do
  let (number, _, left) := collect 0 0 n.whole
  let (number, places, _) := collect 0 number (n.fraction.getD [])
  let written : Int :=
    match n.exponent with
    | some (true, digits) => -Text.digitsValue digits
    | some (false, digits) => Text.digitsValue digits
    | none => 0
  let x ← Double.ofNat? number
  let y ← scale? x ((left.length : Int) - places + written)
  some { y with negative := n.negative }

/-- The value of a number. -/
def NumberText.value? (n : NumberText) : Option Number :=
  let whole : Int := if n.negative then -Text.digitsValue n.whole else Text.digitsValue n.whole
  let isInteger :=
    n.fraction.isNone && n.exponent.isNone && Number.minInteger ≤ whole
      && whole ≤ Number.maxInteger && !(n.negative && whole = 0)
  if isInteger then some (.integer whole) else n.double?.map .double

end Stencil.Json
