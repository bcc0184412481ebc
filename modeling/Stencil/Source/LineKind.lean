import Stencil.Source.Indentation
import Stencil.Text.Line

/-!
# Kinds of lines

What a line is, as far as layout cares, is read off its text and off one fact about the lines
before it: whether a comment is open. Braces count only at the start of a line, other marks after
blanks as well.
-/

namespace Stencil.Source

/-- What a line is. -/
inductive LineKind where
  /-- A line of blanks. -/
  | blank
  /-- A line of a comment. -/
  | comment
  /-- A line that starts with a hash sign. -/
  | preprocessor
  /-- An opening brace alone at the start of a line. -/
  | openBrace
  /-- A line that starts with a closing brace. -/
  | closeBrace
  /-- A `case` or `default` label. -/
  | caseLabel
  /-- The statement `break;`. -/
  | breakStatement
  /-- Any other line, and whether it holds an opening parenthesis. -/
  | code (hasParenthesis : Bool)
  deriving DecidableEq, Repr

/-- The mark that ends a comment. -/
def commentEnd : List Char := ['*', '/']

/-- The kind of a line, `inComment` telling whether a comment is open before it; and whether one is
open after it. -/
def classify (inComment : Bool) (line : Line) : LineKind × Bool :=
  let text := Text.trim line
  if inComment then (.comment, !Text.occursIn commentEnd text)
  else if text.isEmpty then (.blank, false)
  else if ['/', '*'].isPrefixOf text then (.comment, !Text.occursIn commentEnd text)
  else if ['/', '/'].isPrefixOf text then (.comment, false)
  else if text.head? = some '#' then (.preprocessor, false)
  else if Text.trimEnd line = ['{'] then (.openBrace, false)
  else if line.head? = some '}' then (.closeBrace, false)
  else if "case ".toList.isPrefixOf text || "default:".toList.isPrefixOf text then
    (.caseLabel, false)
  else if text = "break;".toList then (.breakStatement, false)
  else (.code (text.contains '('), false)

end Stencil.Source
