import Stencil.Yaml.Character

/-!
# Gaps between words

The words of a scalar that is written on several lines are folded: blanks within a line stay, a
single line end becomes a space, and of several line ends all but the first stay.
-/

namespace Stencil.Yaml

/-- Blanks and line ends between two words. -/
structure Gap where
  /-- The blanks before the first line end. -/
  blanks : List Char := []
  /-- The first line end. -/
  firstBreak : List Char := []
  /-- The line ends after the first one. -/
  breaks : List Char := []
  /-- Whether there is a line end, be it an escaped one. -/
  isBroken : Bool := false
  /-- Whether a tab stands where a space has to. -/
  hasBadTab : Bool := false

namespace Gap

/-- The gap with a blank more, which stands at `column`; the next word has to stand at `indent` or
beyond. -/
def addBlank (gap : Gap) (indent column : Nat) (c : Char) : Gap :=
  if gap.isBroken then { gap with hasBadTab := gap.hasBadTab || (c = '\t' && column < indent) }
  else { gap with blanks := gap.blanks ++ [c] }

/-- The gap with a line end more. -/
def addBreak (gap : Gap) (text : List Char) : Gap :=
  if gap.isBroken then { gap with breaks := gap.breaks ++ text }
  else { gap with blanks := [], firstBreak := text, isBroken := true }

/-- The gap with all the blanks and line ends that come next, and the cursor after them. -/
def read (gap : Gap) (indent : Nat) (mark : Mark) : List Char → Gap × Cursor
  | [] => (gap, ⟨mark, []⟩)
  | '\r' :: '\n' :: rest => read (gap.addBreak ['\n']) indent (mark.newLine 2) rest
  | c :: rest =>
    if isBlank c then read (gap.addBlank indent mark.column c) indent (mark.advance 1) rest
    else if isBreak c then read (gap.addBreak (breakText c)) indent (mark.newLine 1) rest
    else (gap, ⟨mark, c :: rest⟩)

/-- The text that the gap stands for. -/
def text (gap : Gap) : List Char :=
  if !gap.isBroken then gap.blanks
  else if gap.firstBreak.head? = some '\n' then
    if gap.breaks.isEmpty then [' '] else gap.breaks
  else gap.firstBreak ++ gap.breaks

end Gap

end Stencil.Yaml
