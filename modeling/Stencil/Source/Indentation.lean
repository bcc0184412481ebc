import Stencil.Source.Column
import Stencil.Text.Blank

/-!
# Indentation

A line is written with tabs at its start and spaces everywhere else. What stands before the first
character that is neither a space nor a tab is the *margin*; it keeps its width in columns, but is
never narrower than the level asks for. In the rest of the line a tab becomes eight spaces, and up
to seven spaces right before a tab are dropped. Blanks at the end of the line go.
-/

namespace Stencil.Source

/-- A line of source text, without its line end. -/
abbrev Line := List Char

/-- Whether `c` may stand in a margin. -/
def isMargin (c : Char) : Bool :=
  c = ' ' || c = '\t'

/-- The characters of `line` before its first character that is neither a space nor a tab. -/
def margin (line : Line) : List Char :=
  line.takeWhile isMargin

/-- The characters of `line` after its margin, without the blanks at the end of the line. -/
def content (line : Line) : List Char :=
  Text.trimEnd (line.dropWhile isMargin)

/-- The text with `pending` spaces before it, every tab written as eight spaces, and up to seven
spaces before a tab dropped. -/
def expandTabs (pending : Nat) : List Char → List Char
  | [] => List.replicate pending ' '
  | c :: cs =>
    if c = ' ' then expandTabs (pending + 1) cs
    else if c = '\t' then
      List.replicate (pending - (tabWidth - 1)) ' ' ++ List.replicate tabWidth ' '
        ++ expandTabs 0 cs
    else List.replicate pending ' ' ++ c :: expandTabs 0 cs

/-- A margin of `columns` columns: as many tabs as fit, then spaces; `level` tabs if that is
wider. -/
def indentation (columns level : Nat) : List Char :=
  if level * tabWidth ≤ columns then
    List.replicate (columns / tabWidth) '\t' ++ List.replicate (columns % tabWidth) ' '
  else List.replicate level '\t'

/-- `line` with its margin written in tabs, at least `level` of them, tabs in the rest of the line
written as spaces, and no blanks at the end. A blank line becomes empty. -/
def normalize (level : Nat) (line : Line) : Line :=
  match content line with
  | [] => []
  | c :: cs => indentation (width (margin line)) level ++ expandTabs 0 (c :: cs)

end Stencil.Source
