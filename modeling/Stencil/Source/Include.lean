import Stencil.Sorting
import Stencil.Source.Indentation

/-!
# Blocks of includes

A block is a run of lines that start with `#include`. In a block `<common.h>` comes first, then the
headers that do not start with a quote, then the others, each group in the order of the header
texts. Every other line stays where it is.
-/

namespace Stencil.Source

/-- The start of an include line. -/
def includeStart : List Char := "#include".toList

/-- The header that stays in front of its block. -/
def leadingHeader : List Char := "<common.h>".toList

/-- Whether the line belongs to a block of includes. -/
def isInclude (line : Line) : Bool :=
  includeStart.isPrefixOf line

/-- The text without the words `include` at its start. -/
def dropIncludeWords : List Char → List Char
  | 'i' :: 'n' :: 'c' :: 'l' :: 'u' :: 'd' :: 'e' :: cs => dropIncludeWords cs
  | cs => cs

/-- The header of an include line. -/
def header (line : Line) : List Char :=
  Text.trim (dropIncludeWords (Text.trimStart (line.dropWhile (· = '#'))))

/-- The order of lines in a block of includes. -/
def compareIncludes (a b : Line) : Ordering :=
  (compare (header a != leadingHeader) (header b != leadingHeader)).then <|
    (compare ((header a).head? == some '"') ((header b).head? == some '"')).then <|
      compare (header a) (header b)

/-- The lines of a block in their order. -/
def sortBlock (block : List Line) : List Line :=
  stableSort (fun a b => (compareIncludes a b).isLE) block

/-- The lines with every block of includes sorted; `block` are the lines of the block that is
open. -/
def sortIncludesFrom (block : List Line) : List Line → List Line
  | [] => sortBlock block
  | line :: lines =>
    if isInclude line then sortIncludesFrom (block ++ [line]) lines
    else sortBlock block ++ line :: sortIncludesFrom [] lines

/-- The lines with every block of includes sorted. -/
def sortIncludes (lines : List Line) : List Line :=
  sortIncludesFrom [] lines

end Stencil.Source
