import Stencil.Source.Include
import Stencil.Source.Layout

/-!
# Formatting

The lines of a source text are laid out, and then the blocks of includes are sorted. A text keeps
the line end of its first line throughout, and ends in a line end if it did before.
-/

namespace Stencil.Source

/-- The formatted lines. -/
def formatLines (lines : List Line) : List Line :=
  sortIncludes (Layout.run {} lines)

/-- The line end of a text: a carriage return and a line feed if its first line feed has a carriage
return before it, else a line feed. -/
def lineEnd : List Char → List Char
  | [] => ['\n']
  | '\r' :: '\n' :: _ => ['\r', '\n']
  | '\n' :: _ => ['\n']
  | _ :: cs => lineEnd cs

/-- The formatted text. -/
def formatChars (text : List Char) : List Char :=
  Text.join (lineEnd text) (formatLines (Text.lines text)) ++
    if text.getLast? = some '\n' then lineEnd text else []

/-- The formatted text. -/
def formatText (text : String) : String :=
  String.ofList (formatChars text.toList)

end Stencil.Source
