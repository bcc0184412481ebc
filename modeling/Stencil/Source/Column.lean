/-!
# Columns

A tab moves to the next multiple of eight columns, any other character by one. Main statement: the
width of a text is counted from left to right (`widthFrom_append`).
-/

namespace Stencil.Source

/-- The distance between two tab stops, in columns. -/
def tabWidth : Nat := 8

/-- The column after `c` is written at `column`. -/
def advance (column : Nat) (c : Char) : Nat :=
  if c = '\t' then (column / tabWidth + 1) * tabWidth else column + 1

/-- The column after `text` is written from `column` on. -/
def widthFrom (column : Nat) (text : List Char) : Nat :=
  text.foldl advance column

/-- The width of `text` in columns, written from the start of a line. -/
def width (text : List Char) : Nat :=
  widthFrom 0 text

@[simp] theorem widthFrom_nil (column : Nat) : widthFrom column [] = column := rfl

@[simp] theorem widthFrom_cons (column : Nat) (c : Char) (cs : List Char) :
    widthFrom column (c :: cs) = widthFrom (advance column c) cs := rfl

theorem widthFrom_append (column : Nat) (left right : List Char) :
    widthFrom column (left ++ right) = widthFrom (widthFrom column left) right := by
  simp [widthFrom]

theorem width_append (left right : List Char) :
    width (left ++ right) = widthFrom (width left) right :=
  widthFrom_append 0 left right

end Stencil.Source
