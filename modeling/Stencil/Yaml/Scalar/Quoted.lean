import Stencil.Yaml.Gap

/-!
# Quoted scalars

Between single quotes a quote is written twice and every other character stands for itself; between
double quotes a backslash begins an escape. Lines are folded in both.
-/

namespace Stencil.Yaml

/-- The value of a hexadecimal digit. -/
def hexDigit? (c : Char) : Option Nat :=
  if c.isDigit then some (c.toNat - '0'.toNat)
  else if 'a' ≤ c && c ≤ 'f' then some (c.toNat - 'a'.toNat + 10)
  else if 'A' ≤ c && c ≤ 'F' then some (c.toNat - 'A'.toNat + 10)
  else none

/-- The number that hexadecimal digits stand for. -/
def hexValue? (digits : List Char) : Option Nat :=
  digits.foldl (fun n c => n.bind fun n => (hexDigit? c).map (16 * n + ·)) (some 0)

/-- The code points of the escapes of one character. -/
def escapes : List (Char × Nat) :=
  [('0', 0x00), ('a', 0x07), ('b', 0x08), ('t', 0x09), ('\t', 0x09), ('n', 0x0A), ('v', 0x0B),
    ('f', 0x0C), ('r', 0x0D), ('e', 0x1B), (' ', 0x20), ('"', 0x22), ('/', 0x2F), ('\\', 0x5C),
    ('N', 0x85), ('_', 0xA0), ('L', 0x2028), ('P', 0x2029)]

/-- The escapes with hexadecimal digits, and how many. -/
def hexEscapes : List (Char × Nat) :=
  [('x', 2), ('u', 4), ('U', 8)]

/-- The character that an escape stands for, after its backslash, and the number of characters that
it takes. -/
def escape? : List Char → Option (Char × Nat)
  | [] => none
  | c :: rest =>
    match escapes.lookup c with
    | some code => some (Char.ofNat code, 1)
    | none => do
      let count ← hexEscapes.lookup c
      let digits := rest.take count
      if digits.length < count then none
      else
        let code ← hexValue? digits
        if (0xD800 ≤ code && code ≤ 0xDFFF) || 0x10FFFF < code then none
        else some (Char.ofNat code, 1 + count)

/-- The rest of a quoted scalar: the text of the scalar and the cursor after its closing quote. The
text so far is `text`, the last character first. Each step takes a character or a gap. -/
def quotedRest? (quote : Char) (steps : Nat) (text : List Char) (cursor : Cursor) :
    Option (List Char × Cursor) :=
  match steps with
  | 0 => none
  | steps + 1 =>
    let afterGap (text : List Char) (gap : Gap) (cursor : Cursor) : Option (List Char × Cursor) :=
      if cursor.mark.column = 0 && startsDocumentMarker cursor.rest then none
      else quotedRest? quote steps (gap.text.reverse ++ text) cursor
    match cursor.rest with
    | [] => none
    | c :: rest =>
      if isBlank c || isBreak c then
        let (gap, cursor) := Gap.read {} 0 cursor.mark (c :: rest)
        afterGap text gap cursor
      else if c = quote then
        if quote = '\'' && rest.head? = some '\'' then
          quotedRest? quote steps ('\'' :: text) (cursor.skip 2)
        else some (text.reverse, cursor.skip 1)
      else if c = '\\' && quote = '"' then
        if !rest.isEmpty && startsBreak rest then
          let cursor := (cursor.skip 1).takeBreak.2
          let (gap, cursor) := Gap.read { isBroken := true } 0 cursor.mark cursor.rest
          afterGap text gap cursor
        else
          match escape? rest with
          | some (c, size) => quotedRest? quote steps (c :: text) (cursor.skip (1 + size))
          | none => none
      else quotedRest? quote steps (c :: text) (cursor.skip 1)

/-- The scalar whose opening quote is at a cursor, and the cursor after it. -/
def quotedScalar? (quote : Char) (cursor : Cursor) : Option (List Char × Cursor) :=
  quotedRest? quote (cursor.rest.length + 1) [] (cursor.skip 1)

end Stencil.Yaml
