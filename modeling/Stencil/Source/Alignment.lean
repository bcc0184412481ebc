import Stencil.Source.Column
import Stencil.Source.Indentation

/-!
# Alignment of assignments

The first `=` of a line is its assignment sign, unless another `=` or an opening brace follows it or
nothing stands before it. Lines with an assignment sign are aligned by padding the text before the
sign with spaces up to a common column.
-/

namespace Stencil.Source

/-- The text before the assignment sign of a line, without the blanks at its end, and the text from
the sign on. -/
def splitAssignment? (line : Line) : Option (Line × Line) :=
  let before := Text.trimEnd (line.takeWhile (· != '='))
  match line.dropWhile (· != '=') with
  | [] => none
  | sign :: value =>
    if value.head? = some '=' || (Text.trimStart value).head? = some '{' then none
    else if before.all Text.isBlank then none
    else some (before, sign :: value)

/-- The least column at which all assignment signs of the lines can stand with a space before each,
if there is one. -/
def alignmentOffset? (lines : List Line) : Option Nat :=
  (lines.filterMap fun line => (splitAssignment? line).map fun parts => width parts.1 + 1).max?

/-- The line with its assignment sign at the column `offset`, or one space after what precedes it
if that is wider. A line without an assignment sign stays as it is. -/
def alignLine (offset : Nat) (line : Line) : Line :=
  match splitAssignment? line with
  | some (before, assignment) =>
    before ++ List.replicate (max (offset - width before) 1) ' ' ++ assignment
  | none => line

/-- The lines with their assignment signs at the column `offset`. -/
def alignTo (offset : Nat) (lines : List Line) : List Line :=
  lines.map (alignLine offset)

/-- The lines with their assignment signs in one column. -/
def align (lines : List Line) : List Line :=
  match alignmentOffset? lines with
  | some offset => alignTo offset lines
  | none => lines

end Stencil.Source
