import Stencil.Json.Number
import Stencil.Value

/-!
# Reading JSON

A JSON text is read into its tree, which keeps the fields of an object as they are written, repeated
names included. Arrays and objects may be nested 127 deep.

The readers take a number of steps as their first argument. A reader goes down one step for each
character it passes and at most two more, so three steps for each character are enough.
-/

namespace Stencil

/-- A JSON text as it is written. -/
inductive Json where
  | null
  | bool (value : Bool)
  | number (value : Number)
  | string (value : String)
  | array (items : List Json)
  | object (fields : List (String × Json))
  deriving Repr, Inhabited

namespace Json

mutual

/-- The value that a JSON text stands for. -/
def toValue : Json → Value
  | .null => .null
  | .bool value => .bool value
  | .number value => .number value
  | .string value => .string value
  | .array items => .array (toValues items)
  | .object fields => Value.ofFields (toFields fields)

/-- The values of the items of an array. -/
def toValues : List Json → List Value
  | [] => []
  | item :: items => toValue item :: toValues items

/-- The values of the fields of an object. -/
def toFields : List (String × Json) → List (String × Value)
  | [] => []
  | (key, value) :: fields => (key, toValue value) :: toFields fields

end

/-- Whether `c` may stand between two tokens. -/
def isSpace (c : Char) : Bool :=
  c = ' ' || c = '\n' || c = '\t' || c = '\r'

/-- The text without the space at its start. -/
def skipSpace (text : List Char) : List Char :=
  text.dropWhile isSpace

/-- The value of a hexadecimal digit. -/
def hexDigit? (c : Char) : Option Nat :=
  if c.isDigit then some (c.toNat - '0'.toNat)
  else if 'a' ≤ c && c ≤ 'f' then some (c.toNat - 'a'.toNat + 10)
  else if 'A' ≤ c && c ≤ 'F' then some (c.toNat - 'A'.toNat + 10)
  else none

/-- Four hexadecimal digits at the start of a text. -/
def hexUnit? : List Char → Option (Nat × List Char)
  | a :: b :: c :: d :: rest => do
    let a ← hexDigit? a
    let b ← hexDigit? b
    let c ← hexDigit? c
    let d ← hexDigit? d
    some (((a * 16 + b) * 16 + c) * 16 + d, rest)
  | _ => none

/-- The character of an escape with hexadecimal digits, after its `u`. A character beyond `U+FFFF`
is written as two surrogates, and no surrogate stands alone. -/
def unicodeEscape? (text : List Char) : Option (Char × List Char) := do
  let (high, rest) ← hexUnit? text
  if 0xDC00 ≤ high && high ≤ 0xDFFF then none
  else if 0xD800 ≤ high && high ≤ 0xDBFF then
    match rest with
    | '\\' :: 'u' :: rest =>
      let (low, rest) ← hexUnit? rest
      if 0xDC00 ≤ low && low ≤ 0xDFFF then
        some (Char.ofNat (0x10000 + (high - 0xD800) * 0x400 + (low - 0xDC00)), rest)
      else none
    | _ => none
  else some (Char.ofNat high, rest)

/-- The character of an escape, after its backslash. -/
def escape? : List Char → Option (Char × List Char)
  | 'u' :: rest => unicodeEscape? rest
  | c :: rest =>
    let plain : Option Char :=
      match c with
      | '"' => some '"'
      | '\\' => some '\\'
      | '/' => some '/'
      | 'b' => some (Char.ofNat 0x08)
      | 'f' => some (Char.ofNat 0x0C)
      | 'n' => some '\n'
      | 'r' => some '\r'
      | 't' => some '\t'
      | _ => none
    plain.map fun c => (c, rest)
  | [] => none

/-- The rest of a string, after its opening quote: its characters and what follows its closing
quote. `read` are the characters so far, the last one first. -/
def stringRest? (steps : Nat) (read : List Char) (text : List Char) :
    Option (String × List Char) :=
  match steps, text with
  | 0, _ => none
  | _, [] => none
  | _, '"' :: rest => some (String.ofList read.reverse, rest)
  | steps + 1, '\\' :: rest => do
    let (c, rest) ← escape? rest
    stringRest? steps (c :: read) rest
  | steps + 1, c :: rest => if c.toNat < 0x20 then none else stringRest? steps (c :: read) rest

/-- How deep arrays and objects may be nested. -/
def maxDepth : Nat := 127

mutual

/-- A value at the start of a text, and what follows it. -/
def value? (steps depth : Nat) (text : List Char) : Option (Json × List Char) :=
  match steps with
  | 0 => none
  | steps + 1 =>
    match skipSpace text with
    | 'n' :: 'u' :: 'l' :: 'l' :: rest => some (.null, rest)
    | 't' :: 'r' :: 'u' :: 'e' :: rest => some (.bool true, rest)
    | 'f' :: 'a' :: 'l' :: 's' :: 'e' :: rest => some (.bool false, rest)
    | '"' :: rest =>
      (stringRest? (rest.length + 1) [] rest).map fun (s, rest) => (.string s, rest)
    | '[' :: rest =>
      if depth = 0 then none
      else
        match skipSpace rest with
        | ']' :: rest => some (.array [], rest)
        | rest => items? steps (depth - 1) [] rest
    | '{' :: rest =>
      if depth = 0 then none
      else
        match skipSpace rest with
        | '}' :: rest => some (.object [], rest)
        | rest => fields? steps (depth - 1) [] rest
    | text => do
      let (numeral, rest) ← NumberText.read? text
      let value ← numeral.value?
      some (.number value, rest)

/-- The items of an array, from the next one on, and what follows its closing bracket. `read` are
the items so far, the last one first. -/
def items? (steps depth : Nat) (read : List Json) (text : List Char) :
    Option (Json × List Char) :=
  match steps with
  | 0 => none
  | steps + 1 => do
    let (item, rest) ← value? steps depth text
    match skipSpace rest with
    | ']' :: rest => some (.array (item :: read).reverse, rest)
    | ',' :: rest => items? steps depth (item :: read) rest
    | _ => none

/-- The fields of an object, from the next one on, and what follows its closing brace. `read` are
the fields so far, the last one first. -/
def fields? (steps depth : Nat) (read : List (String × Json)) (text : List Char) :
    Option (Json × List Char) :=
  match steps with
  | 0 => none
  | steps + 1 =>
    match skipSpace text with
    | '"' :: rest => do
      let (key, rest) ← stringRest? (rest.length + 1) [] rest
      match skipSpace rest with
      | ':' :: rest =>
        let (value, rest) ← value? steps depth rest
        match skipSpace rest with
        | '}' :: rest => some (.object ((key, value) :: read).reverse, rest)
        | ',' :: rest => fields? steps depth ((key, value) :: read) rest
        | _ => none
      | _ => none
    | _ => none

end

/-- The tree of a JSON text. -/
def parseChars? (text : List Char) : Option Json := do
  let (json, rest) ← value? (3 * text.length + 3) maxDepth text
  if (skipSpace rest).isEmpty then some json else none

/-- The tree of a JSON text. -/
def parse? (text : String) : Option Json :=
  parseChars? text.toList

end Json

end Stencil
