import Stencil.Yaml.Gap

/-!
# Plain scalars

A plain scalar has no quotes. It ends at a comment, at a colon that a blank follows, within brackets
and braces also at a comma or at one of these; outside of them at a line that is not indented. Its
words are folded.
-/

namespace Stencil.Yaml

/-- Where a scalar stands. -/
structure Setting where
  /-- Whether it stands within brackets or braces. -/
  inFlow : Bool
  /-- The least column that its lines may start at. -/
  indent : Nat

/-- Whether `c` ends or begins a collection in brackets or braces, or one of its items. -/
def isFlowSign (c : Char) : Bool :=
  c = ',' || c = '[' || c = ']' || c = '{' || c = '}'

/-- The word of a plain scalar at the start of a text; none if a colon stands in it that may not. -/
def plainWord? (inFlow : Bool) : List Char → Option (List Char)
  | [] => some []
  | c :: rest =>
    if isBlank c || isBreak c then some []
    else if inFlow && c = ':' && rest.head?.any (fun d => isFlowSign d || d = '?') then none
    else if (c = ':' && startsBlank rest) || (inFlow && isFlowSign c) then some []
    else (plainWord? inFlow rest).map (c :: ·)

/-- A plain scalar. -/
structure PlainScalar where
  text : List Char
  /-- The cursor after it, and after the gap that ended it. -/
  cursor : Cursor
  /-- Whether a line end is in that gap. -/
  endsLine : Bool

/-- The rest of a plain scalar from one of its words on. The text before it, the gap included, is
`text`, and `endsLine` tells whether a line end is in that gap. Each step takes a word. -/
def plainRest? (setting : Setting) (steps : Nat) (text : List Char) (gap : Gap) (cursor : Cursor) :
    Option PlainScalar :=
  let stop : PlainScalar := ⟨text, cursor, gap.isBroken⟩
  match steps with
  | 0 => some stop
  | steps + 1 =>
    if (cursor.mark.column = 0 && startsDocumentMarker cursor.rest)
        || cursor.rest.head? = some '#' then
      some stop
    else
      match plainWord? setting.inFlow cursor.rest with
      | none => none
      | some [] => some stop
      | some word =>
        let text := text ++ gap.text ++ word
        let cursor := cursor.skip word.length
        if startsBlank cursor.rest && !cursor.rest.isEmpty then
          let (gap, cursor) := Gap.read {} setting.indent cursor.mark cursor.rest
          if gap.hasBadTab then none
          else if !setting.inFlow && cursor.mark.column < setting.indent then
            some ⟨text, cursor, gap.isBroken⟩
          else plainRest? setting steps text gap cursor
        else some ⟨text, cursor, false⟩

/-- The plain scalar at a cursor. -/
def plainScalar? (setting : Setting) (cursor : Cursor) : Option PlainScalar :=
  plainRest? setting (cursor.rest.length + 1) [] {} cursor

end Stencil.Yaml
