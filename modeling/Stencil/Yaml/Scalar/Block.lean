import Stencil.Yaml.Character

/-!
# Block scalars

A block scalar is written on indented lines below its header. A literal one keeps its line ends; in
a folded one a line end between two lines that do not start with a blank becomes a space. The header
may tell the indentation, and what becomes of the line ends at the end.
-/

namespace Stencil.Yaml

/-- What becomes of the line ends at the end of a block scalar. -/
inductive Chomping where
  /-- The last line keeps its line end. -/
  | clip
  /-- None of them stays. -/
  | strip
  /-- All of them stay. -/
  | keep
  deriving DecidableEq, Repr

/-- The header of a block scalar. -/
structure BlockHeader where
  chomping : Chomping
  /-- The indentation, relative to what the scalar stands in, if it is told. -/
  indent : Option Nat

/-- The chomping sign at the start of a text. -/
def chomping? : List Char → Option Chomping
  | '+' :: _ => some .keep
  | '-' :: _ => some .strip
  | _ => none

/-- The indentation digit at the start of a text. -/
def indentDigit? : List Char → Option Nat
  | c :: _ => if c.isDigit then some (c.toNat - '0'.toNat) else none
  | [] => none

/-- The header at a cursor and the cursor after its signs; none if it tells the indentation zero. -/
def blockHeader? (cursor : Cursor) : Option (BlockHeader × Cursor) :=
  let (chomping, indent, size) : Option Chomping × Option Nat × Nat :=
    match chomping? cursor.rest, indentDigit? cursor.rest with
    | some chomping, _ =>
      let indent := indentDigit? (cursor.rest.drop 1)
      (some chomping, indent, if indent.isSome then 2 else 1)
    | none, some indent =>
      let chomping := chomping? (cursor.rest.drop 1)
      (chomping, some indent, if chomping.isSome then 2 else 1)
    | none, none => (none, none, 0)
  if indent = some 0 then none else some (⟨chomping.getD .clip, indent⟩, cursor.skip size)

/-- Spaces and empty lines before a line of a block scalar. -/
structure BlockGap where
  /-- The line ends. -/
  breaks : List Char
  /-- The widest column that was reached. -/
  widest : Nat
  /-- The cursor after them. -/
  cursor : Cursor

/-- The spaces and empty lines at a cursor, up to the column `indent` if it is known; none if a tab
stands there. -/
def blockGap? (indent : Option Nat) (steps : Nat) (breaks : List Char) (widest : Nat)
    (cursor : Cursor) : Option BlockGap :=
  let isInside (column : Nat) : Bool := indent.all (column < ·)
  let spaces := (cursor.rest.takeWhile (· = ' ')).length
  let spaces := match indent with
    | some indent => min spaces (indent - cursor.mark.column)
    | none => spaces
  let cursor := cursor.skip spaces
  let widest := max widest cursor.mark.column
  if isInside cursor.mark.column && cursor.rest.head? = some '\t' then none
  else
    match steps with
    | 0 => some ⟨breaks, widest, cursor⟩
    | steps + 1 =>
      match cursor.takeBreak with
      | ([], cursor) => some ⟨breaks, widest, cursor⟩
      | (text, cursor) => blockGap? indent steps (breaks ++ text) widest cursor

/-- The text of a block scalar so far. -/
structure BlockText where
  text : List Char := []
  /-- The line end of the last line. -/
  lastBreak : List Char := []
  /-- The line ends of the empty lines after it. -/
  breaks : List Char := []
  /-- Whether the last line starts with a blank. -/
  startsBlank : Bool := false

/-- The text with one more line, which is folded onto the last one unless the scalar is literal. -/
def BlockText.addLine (block : BlockText) (isLiteral : Bool) (line lineBreak : List Char) :
    BlockText :=
  let isBlankLine := line.head?.any isBlank
  let isFolded :=
    !isLiteral && block.lastBreak.head? = some '\n' && !block.startsBlank && !isBlankLine
  let join :=
    if isFolded then if block.breaks.isEmpty then [' '] else [] else block.lastBreak
  { text := block.text ++ join ++ block.breaks ++ line
    lastBreak := lineBreak
    breaks := []
    startsBlank := isBlankLine }

/-- The text of a block scalar with its line ends at the end as they are to be. -/
def BlockText.chomp (block : BlockText) (chomping : Chomping) : List Char :=
  match chomping with
  | .strip => block.text
  | .clip => block.text ++ block.lastBreak
  | .keep => block.text ++ block.lastBreak ++ block.breaks

/-- The lines of a block scalar from a cursor on, which are indented to `indent`. -/
def blockLines? (isLiteral : Bool) (indent : Nat) (steps : Nat) (block : BlockText)
    (cursor : Cursor) : Option (BlockText × Cursor) :=
  match steps with
  | 0 => some (block, cursor)
  | steps + 1 =>
    if cursor.mark.column = indent && !cursor.rest.isEmpty then do
      let (line, cursor) := cursor.takeWhile (!isBreak ·)
      let (lineBreak, cursor) := cursor.takeBreak
      let block := block.addLine isLiteral line lineBreak
      let gap ← blockGap? (some indent) cursor.rest.length [] 0 cursor
      blockLines? isLiteral indent steps { block with breaks := gap.breaks } gap.cursor
    else some (block, cursor)

/-- The block scalar whose sign is at a cursor, and the cursor after it. What it stands in is
indented to `parent`, if to anything. -/
def blockScalar? (isLiteral : Bool) (parent : Option Nat) (cursor : Cursor) :
    Option (List Char × Cursor) := do
  let (header, cursor) ← blockHeader? (cursor.skip 1)
  let cursor ← cursor.endLine?
  let told := header.indent.map (parent.getD 0 + ·)
  let gap ← blockGap? told cursor.rest.length [] 0 cursor
  let indent :=
    match told with
    | some indent => indent
    | none => max (max gap.widest (match parent with | some n => n + 1 | none => 0)) 1
  let steps := gap.cursor.rest.length + 1
  let (block, cursor) ← blockLines? isLiteral indent steps { breaks := gap.breaks } gap.cursor
  return (block.chomp header.chomping, cursor)

end Stencil.Yaml
