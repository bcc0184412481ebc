import Stencil.Sorting
import Stencil.Text.Line

/-!
# Modifiers

What may be done to a rendered text before it is written. Sorting puts the pieces between line feeds
in the order of their characters; an empty piece at the end stays there, so that a text that ends in
a line feed still does.
-/

namespace Stencil

/-- What is done to a rendered text. -/
inductive Modifier where
  | sortLines
  deriving DecidableEq, Repr

namespace Modifier

/-- The name of a modifier. -/
def name : Modifier → String
  | .sortLines => "sort_lines"

/-- The modifier of a name. -/
def ofName? (name : String) : Option Modifier :=
  if name = "sort_lines" then some .sortLines else none

/-- The lines in the order of their characters. -/
def sorted (lines : List (List Char)) : List (List Char) :=
  stableSort (lexLe fun a b => decide (a < b)) lines

/-- The text with its lines sorted. -/
def sortedText (text : List Char) : List Char :=
  let pieces := Text.cut '\n' text
  let pieces :=
    if pieces.getLast? = some [] then sorted pieces.dropLast ++ [[]] else sorted pieces
  Text.join ['\n'] pieces

/-- The text after a modifier. -/
def apply : Modifier → List Char → List Char
  | .sortLines => sortedText

/-- The text after several modifiers, the first one first. -/
def applyAll (modifiers : List Modifier) (text : List Char) : List Char :=
  modifiers.foldl (fun text modifier => modifier.apply text) text

end Modifier

end Stencil
