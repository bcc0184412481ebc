/-!
# Characters of YAML

The classes of characters that the rules of YAML are written in, and the places of characters in a
text. A line end is a carriage return, a line feed, both together, or one of three rarer characters.
-/

namespace Stencil.Yaml

/-- Whether `c` may stand in a text at all. -/
def isAllowed (c : Char) : Bool :=
  let n := c.toNat
  n = 0x09 || n = 0x0A || n = 0x0D || (0x20 ≤ n && n ≤ 0x7E) || n = 0x85
    || (0xA0 ≤ n && n ≤ 0xD7FF) || (0xE000 ≤ n && n ≤ 0xFFFD) || 0x10000 ≤ n

/-- The mark that may stand at the start of a text. -/
def byteOrderMark : Char := Char.ofNat 0xFEFF

/-- A space or a tab. -/
def isBlank (c : Char) : Bool :=
  c = ' ' || c = '\t'

/-- A character that ends a line. -/
def isBreak (c : Char) : Bool :=
  c = '\r' || c = '\n' || c.toNat = 0x85 || c.toNat = 0x2028 || c.toNat = 0x2029

/-- The text that a line end stands for. -/
def breakText (c : Char) : List Char :=
  if c.toNat = 0x2028 || c.toNat = 0x2029 then [c] else ['\n']

/-- A letter, a digit, a minus sign or an underscore. -/
def isWordChar (c : Char) : Bool :=
  c.isAlphanum || c = '_' || c = '-'

/-- Whether the text is at its end, at the end of a line or at a blank. -/
def startsBlank : List Char → Bool
  | [] => true
  | c :: _ => isBlank c || isBreak c

/-- Whether the text is at its end or at the end of a line. -/
def startsBreak : List Char → Bool
  | [] => true
  | c :: _ => isBreak c

/-- Whether the text starts with three times `c` and nothing joined to them. -/
def startsMarker (c : Char) : List Char → Bool
  | a :: b :: d :: rest => a = c && b = c && d = c && startsBlank rest
  | _ => false

/-- Whether the text starts with the mark that begins or ends a document. -/
def startsDocumentMarker (text : List Char) : Bool :=
  startsMarker '-' text || startsMarker '.' text

/-- A place in a text: how many characters and lines are before it, and how many characters of its
line. -/
structure Mark where
  index : Nat
  line : Nat
  column : Nat
  deriving DecidableEq, Repr

namespace Mark

/-- The place where a text starts. -/
def start : Mark := ⟨0, 0, 0⟩

/-- The place `count` characters later on the line. -/
def advance (mark : Mark) (count : Nat) : Mark :=
  { mark with index := mark.index + count, column := mark.column + count }

/-- The place after a line end of `count` characters. -/
def newLine (mark : Mark) (count : Nat) : Mark :=
  ⟨mark.index + count, mark.line + 1, 0⟩

end Mark

/-- A text from one of its places on. -/
structure Cursor where
  /-- The place. -/
  mark : Mark
  /-- The text from there on. -/
  rest : List Char
  deriving DecidableEq, Repr

namespace Cursor

/-- The cursor `count` characters later on the line. -/
def skip (cursor : Cursor) (count : Nat) : Cursor :=
  ⟨cursor.mark.advance count, cursor.rest.drop count⟩

/-- The characters from the cursor on that satisfy `p`, all of one line, and the cursor after
them. -/
def takeWhile (cursor : Cursor) (p : Char → Bool) : List Char × Cursor :=
  let taken := cursor.rest.takeWhile p
  (taken, cursor.skip taken.length)

/-- The cursor after the characters that satisfy `p`, all of one line. -/
def skipWhile (cursor : Cursor) (p : Char → Bool) : Cursor :=
  (cursor.takeWhile p).2

/-- The line end at the cursor, as the text that it stands for, and the cursor after it; nothing if
there is no line end. -/
def takeBreak (cursor : Cursor) : List Char × Cursor :=
  match cursor.rest with
  | '\r' :: '\n' :: rest => (['\n'], ⟨cursor.mark.newLine 2, rest⟩)
  | c :: rest =>
    if isBreak c then (breakText c, ⟨cursor.mark.newLine 1, rest⟩) else ([], cursor)
  | [] => ([], cursor)

/-- The cursor after the blanks and the comment that end a line, and after its end; none if
something else stands there. -/
def endLine? (cursor : Cursor) : Option Cursor :=
  let cursor := cursor.skipWhile isBlank
  let cursor :=
    if cursor.rest.head? = some '#' then cursor.skipWhile (!isBreak ·) else cursor
  if startsBreak cursor.rest then some cursor.takeBreak.2 else none

end Cursor

end Stencil.Yaml
