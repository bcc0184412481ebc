import Stencil.Yaml.Scalar.Quoted
import Stencil.Yaml.Token

/-!
# Tags and directives

A tag is a handle and a suffix. A handle is an exclamation mark, perhaps with a word and a second
one after it; a suffix is made of the characters of addresses, others being written as the bytes of
their UTF-8 form. Directives stand before a document and say which version it has and what its
handles stand for.
-/

namespace Stencil.Yaml

/-- The characters of addresses besides those of words, in all places. -/
def addressChars : List Char :=
  ";/?:@&=+$.!~*'()".toList

/-- The characters of addresses that have a meaning within brackets. -/
def enclosedAddressChars : List Char :=
  [',', '[', ']']

/-- The byte that a percent sign and two hexadecimal digits stand for. -/
def escapedByte? : List Char → Option (UInt8 × List Char)
  | '%' :: a :: b :: rest => do
    let high ← hexDigit? a
    let low ← hexDigit? b
    some (UInt8.ofNat (16 * high + low), rest)
  | _ => none

/-- As many escaped bytes as `count` tells. -/
def escapedBytes? : Nat → List Char → Option (List UInt8 × List Char)
  | 0, text => some ([], text)
  | count + 1, text => do
    let (byte, rest) ← escapedByte? text
    let (bytes, rest) ← escapedBytes? count rest
    some (byte :: bytes, rest)

/-- The number of bytes of a character in UTF-8, from its first byte; zero if it is none. -/
def byteCount (first : UInt8) : Nat :=
  if first < 0x80 then 1
  else if first < 0xC0 then 0
  else if first < 0xE0 then 2
  else if first < 0xF0 then 3
  else if first < 0xF8 then 4
  else 0

/-- The character that escaped bytes at the start of a text stand for, and the number of characters
that they take. -/
def escapedChar? (text : List Char) : Option (Char × Nat) := do
  let (first, _) ← escapedByte? text
  let count := byteCount first
  if count = 0 then none
  else
    let (bytes, _) ← escapedBytes? count text
    let decoded ← String.fromUTF8? ⟨bytes.toArray⟩
    let c ← decoded.toList.head?
    some (c, 3 * count)

/-- An address at the start of a text, and the number of characters that it takes. Each step takes a
character of it. -/
def address? (isEnclosed : Bool) (steps : Nat) (text : List Char) : Option (List Char × Nat) :=
  match steps, text with
  | steps + 1, c :: rest =>
    if c = '%' then do
      let (c, size) ← escapedChar? (c :: rest)
      let (address, more) ← address? isEnclosed steps ((c :: rest).drop size)
      some (c :: address, size + more)
    else if isWordChar c || addressChars.contains c
        || (isEnclosed && enclosedAddressChars.contains c) then do
      let (address, more) ← address? isEnclosed steps rest
      some (c :: address, 1 + more)
    else some ([], 0)
  | _, _ => some ([], 0)

/-- The handle of a tag at the start of a text, which starts with an exclamation mark: the mark, a
word and perhaps a second mark. -/
def handle (text : List Char) : List Char :=
  let word := (text.drop 1).takeWhile isWordChar
  let rest := (text.drop 1).drop word.length
  if rest.head? = some '!' then '!' :: word ++ ['!'] else '!' :: word

/-- The tag at a cursor, and the cursor after it. A tag whose handle stands alone is a suffix. -/
def tag? (cursor : Cursor) : Option (Token × Cursor) :=
  let text := cursor.rest
  if text[1]? = some '<' then do
    let (suffix, size) ← address? true text.length (text.drop 2)
    let cursor := cursor.skip (2 + size)
    if suffix.isEmpty || cursor.rest.head? ≠ some '>' then none
    else some (.tag [] suffix, cursor.skip 1)
  else
    let handle := handle text
    let cursor := cursor.skip handle.length
    let isHandle := 1 < handle.length && handle.getLast? = some '!'
    match address? false cursor.rest.length cursor.rest with
    | none => none
    | some (address, size) =>
      let cursor := cursor.skip size
      if isHandle then if address.isEmpty then none else some (.tag handle address, cursor)
      else
        match handle.drop 1 ++ address with
        | [] => some (.tag [] ['!'], cursor)
        | suffix => some (.tag ['!'] suffix, cursor)

/-- A decimal number of at most nine digits at a cursor, and the cursor after it. -/
def versionNumber? (cursor : Cursor) : Option (Nat × Cursor) :=
  let (digits, cursor) := cursor.takeWhile Char.isDigit
  if digits.isEmpty || 9 < digits.length then none
  else some (digits.foldl (fun n c => 10 * n + (c.toNat - '0'.toNat)) 0, cursor)

/-- The version at a cursor, and the cursor after it. -/
def version? (cursor : Cursor) : Option (Token × Cursor) := do
  let (major, cursor) ← versionNumber? (cursor.skipWhile isBlank)
  if cursor.rest.head? ≠ some '.' then none
  else
    let (minor, cursor) ← versionNumber? (cursor.skip 1)
    some (.versionDirective major minor, cursor)

/-- The handle at a cursor and what it stands for, and the cursor after them. -/
def handleMeaning? (cursor : Cursor) : Option (Token × Cursor) := do
  let cursor := cursor.skipWhile isBlank
  if cursor.rest.head? ≠ some '!' then none
  else
    let handle := handle cursor.rest
    let cursor := cursor.skip handle.length
    if 1 < handle.length && handle.getLast? ≠ some '!' then none
    else if !cursor.rest.head?.any isBlank then none
    else
      let cursor := cursor.skipWhile isBlank
      let (start, size) ← address? true cursor.rest.length cursor.rest
      let cursor := cursor.skip size
      if start.isEmpty || !startsBlank cursor.rest then none
      else some (.tagDirective handle start, cursor)

/-- The directive whose percent sign is at a cursor, and the cursor after its line. -/
def directive? (cursor : Cursor) : Option (Token × Cursor) := do
  let (name, cursor) := (cursor.skip 1).takeWhile isWordChar
  let (token, cursor) ←
    if !startsBlank cursor.rest then none
    else if name = "YAML".toList then version? cursor
    else if name = "TAG".toList then handleMeaning? cursor
    else none
  let cursor ← cursor.endLine?
  return (token, cursor)

end Stencil.Yaml
