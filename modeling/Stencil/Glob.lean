/-!
# Patterns for file names

A pattern is a list of tokens, each of which stands for some bytes of a name in UTF-8; a name is
selected if it can be divided among the tokens in order. Tokens match bytes, so a question mark
stands for one byte of a character that has several.
-/

namespace Stencil

namespace Glob

/-- A part of a pattern. -/
inductive Token where
  /-- The character itself. -/
  | literal (c : Char)
  /-- One byte. -/
  | any
  /-- Any bytes. -/
  | anyText
  /-- The directories before a name: nothing, or what ends in a slash. -/
  | directoriesBefore
  /-- All that follows a slash, and the slash. -/
  | allWithin
  /-- The directories between two names: a slash, or what starts and ends in one. -/
  | directoriesBetween
  /-- One byte that is within the ranges, or one that is not. -/
  | oneOf (negated : Bool) (ranges : List (Char × Char))
  /-- What one of the lists stands for. A list with nothing in it does not count. -/
  | alternatives (branches : List (List Token))
  deriving Repr

/-- The bytes of a character. -/
def bytes (c : Char) : List UInt8 :=
  (String.singleton c).toUTF8.data.toList

/-- The ranges of bytes that a range of characters stands for: from the last byte of its start to
the first byte of its end, and each byte around these. -/
def byteRanges (range : Char × Char) : List (UInt8 × UInt8) :=
  let first := bytes range.1
  let last := bytes range.2
  let alone := fun (b : UInt8) => (b, b)
  if range.1 = range.2 then first.map alone
  else
    first.dropLast.map alone ++ (first.getLast?.toList.zip last) ++ last.tail.map alone

/-- Whether a byte is within one of the ranges. -/
def isWithin (ranges : List (Char × Char)) (b : UInt8) : Bool :=
  (ranges.flatMap byteRanges).any fun range => range.1 ≤ b && b ≤ range.2

/-! ## Marks

A name has a place before its first byte and one after each byte. Marks tell for each place whether
the tokens so far may end there, so that no place is looked at twice for a token. -/

/-- The marks after one byte that satisfies `p`. -/
def step (p : UInt8 → Bool) (name : List UInt8) (marks : List Bool) : List Bool :=
  false :: List.zipWith (fun b mark => mark && p b) name marks

/-- The marks after any bytes; `found` tells whether there is a mark before these places. -/
def spread (found : Bool) : List Bool → List Bool
  | [] => []
  | mark :: marks => (found || mark) :: spread (found || mark) marks

/-- The marks of either. -/
def either (left right : List Bool) : List Bool :=
  List.zipWith (· || ·) left right

/-- Whether a byte is a slash. -/
def isSlash (b : UInt8) : Bool :=
  b = 0x2F

/-- The marks after the bytes of a character. -/
def stepChar (c : Char) (name : List UInt8) (marks : List Bool) : List Bool :=
  (bytes c).foldl (fun marks b => step (· = b) name marks) marks

mutual

/-- Whether there is nothing in a token: it offers alternatives, none of which counts. -/
def Token.isVoid : Token → Bool
  | .alternatives branches => areVoid branches
  | _ => false

/-- Whether there is nothing in tokens. -/
def isVoid : List Token → Bool
  | [] => true
  | token :: tokens => token.isVoid && isVoid tokens

/-- Whether there is nothing in any of the lists. -/
def areVoid : List (List Token) → Bool
  | [] => true
  | branch :: branches => isVoid branch && areVoid branches

end

mutual

/-- The marks after what a token stands for. -/
def Token.advance (name : List UInt8) : Token → List Bool → List Bool
  | .literal c, marks => stepChar c name marks
  | .any, marks => step (fun _ => true) name marks
  | .anyText, marks => spread false marks
  | .directoriesBefore, marks => either marks (step isSlash name (spread false marks))
  | .allWithin, marks => spread false (step isSlash name marks)
  | .directoriesBetween, marks =>
    let marks := step isSlash name marks
    either marks (step isSlash name (spread false marks))
  | .oneOf negated ranges, marks => step (fun b => isWithin ranges b != negated) name marks
  | .alternatives branches, marks =>
    if areVoid branches then marks else advanceAny name branches marks

/-- The marks after what tokens stand for, in order. -/
def advance (name : List UInt8) : List Token → List Bool → List Bool
  | [], marks => marks
  | token :: tokens, marks => advance name tokens (token.advance name marks)

/-- The marks after what one of the lists that count stands for. -/
def advanceAny (name : List UInt8) : List (List Token) → List Bool → List Bool
  | [], marks => marks.map fun _ => false
  | branch :: branches, marks =>
    if isVoid branch then advanceAny name branches marks
    else either (advance name branch marks) (advanceAny name branches marks)

end

/-- Whether tokens stand, in order, for a whole name. -/
def spells (tokens : List Token) (name : List UInt8) : Bool :=
  (advance name tokens (true :: name.map fun _ => false)).getLast? = some true

end Glob

/-- A pattern for file names. -/
structure Glob where
  tokens : List Glob.Token
  deriving Repr

/-- Whether a name is selected. A pattern that says only that there may be directories selects all
names. -/
def Glob.matches (glob : Glob) (name : String) : Bool :=
  match glob.tokens with
  | [.directoriesBefore] => true
  | tokens => Glob.spells tokens name.toUTF8.data.toList

end Stencil
