import Stencil.Value

/-!
# Writing JSON

A value is written without spaces, the fields of an object in their order. In a string the quote,
the backslash and the control characters are escaped, and nothing else.
-/

namespace Stencil.Value

/-- The hexadecimal digit of a number below sixteen. -/
def hexDigit (n : Nat) : Char :=
  Nat.digitChar n

/-- A character of a string as it is written. -/
def escapeChar (c : Char) : List Char :=
  if c = '"' then ['\\', '"']
  else if c = '\\' then ['\\', '\\']
  else if c = '\n' then ['\\', 'n']
  else if c = '\r' then ['\\', 'r']
  else if c = '\t' then ['\\', 't']
  else if c.toNat = 0x08 then ['\\', 'b']
  else if c.toNat = 0x0C then ['\\', 'f']
  else if c.toNat < 0x20 then
    ['\\', 'u', '0', '0', hexDigit (c.toNat / 16), hexDigit (c.toNat % 16)]
  else [c]

/-- A string with its quotes. -/
def quoted (text : String) : String :=
  String.ofList ('"' :: text.toList.flatMap escapeChar ++ ['"'])

mutual

/-- The JSON text of a value. -/
def json : Value → String
  | .null => "null"
  | .bool value => toString value
  | .number value => value.text
  | .string value => quoted value
  | .array items => "[" ++ jsonItems items ++ "]"
  | .object fields => "\x7b" ++ jsonFields fields ++ "\x7d"

/-- The JSON texts of the items of an array, with commas between them. -/
def jsonItems : List Value → String
  | [] => ""
  | [item] => json item
  | item :: items => json item ++ "," ++ jsonItems items

/-- The JSON texts of the fields of an object, with commas between them. -/
def jsonFields : List (String × Value) → String
  | [] => ""
  | [(key, value)] => quoted key ++ ":" ++ json value
  | (key, value) :: fields => quoted key ++ ":" ++ json value ++ "," ++ jsonFields fields

end

end Stencil.Value
