import Stencil.Number
import Stencil.Text.Identifier

/-!
# Numbers in YAML

Integers are decimal, hexadecimal, octal or binary; a number with a fraction or exponent is the
double nearest to it. There are also infinity, with its two signs, and a number that is none.
-/

namespace Stencil.Yaml

/-- A number of a YAML document. -/
inductive Number where
  | integer (value : Int)
  | double (value : Double)
  | infinity (negative : Bool)
  | notANumber
  deriving DecidableEq, Repr

namespace Number

/-- Whether two numbers are the same value. Zero with either sign is one value, and the number that
is none is the same as itself. -/
protected def beq : Number → Number → Bool
  | .integer a, .integer b => a = b
  | .double x, .double y => x == y
  | .infinity a, .infinity b => a = b
  | .notANumber, .notANumber => true
  | _, _ => false

instance : BEq Number := ⟨Number.beq⟩

/-- Doubles are written without a plus sign before the exponent. -/
def style : Decimal.Style := ⟨false⟩

/-- The text of a number. -/
def text : Number → String
  | .integer a => toString a
  | .double x => String.ofList (Decimal.text style x)
  | .infinity negative => if negative then "-.inf" else ".inf"
  | .notANumber => ".nan"

/-- The value of a digit that is below `base`. -/
def digit? (base : Nat) (c : Char) : Option Nat :=
  let value :=
    if c.isDigit then c.toNat - '0'.toNat
    else if 'a' ≤ c && c ≤ 'z' then c.toNat - 'a'.toNat + 10
    else if 'A' ≤ c && c ≤ 'Z' then c.toNat - 'A'.toNat + 10
    else base
  if value < base then some value else none

/-- The number that digits stand for, at least one. -/
def natural? (base : Nat) (digits : List Char) : Option Nat :=
  if digits.isEmpty then none
  else digits.foldl (fun n c => n.bind fun n => (digit? base c).map (base * n + ·)) (some 0)

/-- The number with the mark of its base before it, if it has one: hexadecimal, octal or binary. -/
def based? : List Char → Option Nat
  | '0' :: 'x' :: digits => natural? 16 digits
  | '0' :: 'o' :: digits => natural? 8 digits
  | '0' :: 'b' :: digits => natural? 2 digits
  | _ => none

/-- The text without a sign before it. -/
def unsigned : List Char → List Char
  | '+' :: rest | '-' :: rest => rest
  | text => text

/-- Whether the text is made of digits, but a zero before others makes it no number. -/
def hasLeadingZero (text : List Char) : Bool :=
  match unsigned text with
  | '0' :: c :: rest => (c :: rest).all Char.isDigit
  | _ => false

/-- The text without a plus sign before it. -/
def withoutPlus : List Char → List Char
  | '+' :: rest => rest
  | text => text

/-- The integer without a minus sign that a text is, if it is below `bound`. -/
def unsignedInteger? (bound : Nat) (text : List Char) : Option Nat :=
  let digits := withoutPlus text
  let number :=
    (within (based? digits)).or (if hasLeadingZero text then none else within (natural? 10 digits))
  number
where
  /-- The number, if it is below the bound. -/
  within (n : Option Nat) : Option Nat := n.filter (· < bound)

/-- The integer with a minus sign that a text is, if it is no less than `-bound`. -/
def negativeInteger? (bound : Nat) (text : List Char) : Option Int :=
  match text with
  | '-' :: digits =>
    let number :=
      (within (based? digits)).or
        (if hasLeadingZero text then none else within (natural? 10 digits))
    number.map fun n => -(n : Int)
  | _ => none
where
  /-- The number, if it is within the bound. -/
  within (n : Option Nat) : Option Nat := n.filter (· ≤ bound)

/-- What a text says about integers. -/
inductive Reading where
  /-- It is an integer. -/
  | integer (value : Int)
  /-- It is an integer that does not fit into 64 bits. -/
  | tooWide
  /-- It is none. -/
  | other

/-- What is below it fits into 64 bits. -/
def bound64 : Nat := 0x10000000000000000

/-- What is below it fits into 128 bits. -/
def bound128 : Nat := 0x100000000000000000000000000000000

/-- The integer that a text is, if it fits into 64 bits. Half of what fits may be negative. -/
def readInteger (text : List Char) : Reading :=
  match unsignedInteger? bound64 text, negativeInteger? (bound64 / 2) text with
  | some n, _ => .integer n
  | none, some n => .integer n
  | none, none =>
    if (unsignedInteger? bound128 text).isSome || (negativeInteger? (bound128 / 2) text).isSome then
      .tooWide
    else .other

/-- The exponent at the start of a text that is nothing else. -/
def exponent? : List Char → Option Int
  | [] => some 0
  | c :: rest =>
    if c = 'e' || c = 'E' then
      match rest with
      | '-' :: digits => (natural? 10 digits).map fun n => -(n : Int)
      | '+' :: digits => (natural? 10 digits).map fun n => (n : Int)
      | digits => (natural? 10 digits).map fun n => (n : Int)
    else none

/-- The double nearest to a decimal number; none if it is beyond the largest double. -/
def decimal? (text : List Char) : Option Double := do
  let negative := text.head? = some '-'
  let text := unsigned text
  let whole := text.takeWhile Char.isDigit
  let rest := text.dropWhile Char.isDigit
  let (fraction, rest) :=
    match rest with
    | '.' :: rest => (rest.takeWhile Char.isDigit, rest.dropWhile Char.isDigit)
    | _ => ([], rest)
  if whole.isEmpty && fraction.isEmpty then none
  else
    let exponent ← exponent? rest
    Double.ofDecimal? negative (Text.digitsValue (whole ++ fraction)) (exponent - fraction.length)

/-- The number with a fraction or exponent, or the name of a number, that a text is. -/
def readDouble? (text : List Char) : Option Number :=
  let positive := withoutPlus text
  let hasTwoSigns :=
    text.head? = some '+' && (positive.head? = some '+' || positive.head? = some '-')
  if hasTwoSigns then none
  else if [".inf", ".Inf", ".INF"].contains (String.ofList positive) then some (.infinity false)
  else if ["-.inf", "-.Inf", "-.INF"].contains (String.ofList text) then some (.infinity true)
  else if [".nan", ".NaN", ".NAN"].contains (String.ofList text) then some .notANumber
  else (decimal? positive).map .double

end Number

end Stencil.Yaml
