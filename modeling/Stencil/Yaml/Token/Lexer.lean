import Stencil.Yaml.Scalar.Block
import Stencil.Yaml.Scalar.Plain
import Stencil.Yaml.Token.Tag

/-!
# Reading YAML tokens

A text is read token by token. Outside of brackets and braces indentation counts: a block collection
starts where its first item is indented more than what it stands in, and ends where the indentation
goes back. A key before a colon is known as one only when the colon comes, so that its mark is put
in where the key began (`Lexer.insertAt`).
-/

namespace Stencil.Yaml

/-- A place where a key may have begun. -/
structure KeyPlace where
  /-- Whether there has to be a key. -/
  isRequired : Bool
  /-- The number of tokens before it. -/
  number : Nat
  mark : Mark

/-- What is read and what is remembered between two tokens. -/
structure Lexer where
  cursor : Cursor
  /-- The tokens so far, the last one first. -/
  tokens : List Token := []
  /-- The columns of the open block collections, the innermost first. -/
  indents : List Nat := []
  /-- The place where a key may have begun outside of brackets and braces. -/
  blockKey : Option KeyPlace := none
  /-- The same within each open bracket or brace, the innermost first. -/
  flowKeys : List (Option KeyPlace) := []
  /-- Whether a key may begin at the next token. -/
  allowsKey : Bool := true

namespace Lexer

/-- Whether the next token stands within brackets or braces. -/
def inFlow (lexer : Lexer) : Bool :=
  !lexer.flowKeys.isEmpty

/-- The column that the innermost block collection is indented to. -/
def indent? (lexer : Lexer) : Option Nat :=
  lexer.indents.head?

/-- The reader with a token more. -/
def emit (lexer : Lexer) (token : Token) : Lexer :=
  { lexer with tokens := token :: lexer.tokens }

/-- The reader with a token put in after the first `number` ones. -/
def insertAt (lexer : Lexer) (number : Nat) (token : Token) : Lexer :=
  let later := lexer.tokens.length - number
  { lexer with tokens := lexer.tokens.take later ++ token :: lexer.tokens.drop later }

/-- The place where a key may have begun at the present depth of brackets and braces. -/
def key (lexer : Lexer) : Option KeyPlace :=
  match lexer.flowKeys with
  | [] => lexer.blockKey
  | place :: _ => place

/-- The reader with another such place. -/
def setKey (lexer : Lexer) (place : Option KeyPlace) : Lexer :=
  match lexer.flowKeys with
  | [] => { lexer with blockKey := place }
  | _ :: outer => { lexer with flowKeys := place :: outer }

/-- Whether no key can begin at the place any more: it is on an earlier line, or too far away. -/
def isStale (mark : Mark) (place : KeyPlace) : Bool :=
  place.mark.line < mark.line || place.mark.index + 1024 < mark.index

/-- The place unless it is stale; none if there had to be a key. -/
def refresh? (mark : Mark) (place : Option KeyPlace) : Option (Option KeyPlace) :=
  match place with
  | some key =>
    if isStale mark key then if key.isRequired then none else some none else some (some key)
  | none => some none

/-- The reader without the places where no key can begin any more. -/
def dropStaleKeys? (lexer : Lexer) : Option Lexer := do
  let blockKey ← refresh? lexer.cursor.mark lexer.blockKey
  let flowKeys ← lexer.flowKeys.mapM (refresh? lexer.cursor.mark)
  return { lexer with blockKey, flowKeys }

/-- The reader without the place where a key may have begun; none if there had to be a key. -/
def dropKey? (lexer : Lexer) : Option Lexer :=
  if lexer.key.any KeyPlace.isRequired then none else some (lexer.setKey none)

/-- The reader with the cursor as the place where a key may begin, if one may begin there. -/
def saveKey? (lexer : Lexer) : Option Lexer :=
  if lexer.allowsKey then
    let mark := lexer.cursor.mark
    let isRequired := !lexer.inFlow && lexer.indent? = some mark.column
    lexer.dropKey?.map (·.setKey (some ⟨isRequired, lexer.tokens.length, mark⟩))
  else some lexer

/-- Opens a block collection at a column that lies beyond the open ones; its token is put in after
the first `number` ones. -/
def openBlock (lexer : Lexer) (column number : Nat) (token : Token) : Lexer :=
  if !lexer.inFlow && lexer.indents.head?.all (· < column) then
    { lexer.insertAt number token with indents := column :: lexer.indents }
  else lexer

/-- Closes the block collections that are indented beyond a column. -/
def closeBlocks (lexer : Lexer) (column : Nat) : Lexer :=
  if lexer.inFlow then lexer
  else
    let closed := (lexer.indents.takeWhile (column < ·)).length
    { lexer with
      tokens := List.replicate closed .blockEnd ++ lexer.tokens
      indents := lexer.indents.drop closed }

/-- Closes all block collections, unless a bracket or brace is open. -/
def closeAllBlocks (lexer : Lexer) : Lexer :=
  if lexer.inFlow then lexer
  else
    { lexer with
      tokens := List.replicate lexer.indents.length .blockEnd ++ lexer.tokens
      indents := [] }

/-- The reader behind the blanks, comments and line ends before the next token. Each step takes
those of one line. Tabs are blanks only where no key may begin. -/
def skipBlanks (lexer : Lexer) (steps : Nat) : Lexer :=
  let cursor := lexer.cursor
  let cursor :=
    if cursor.mark.column = 0 && cursor.rest.head? = some byteOrderMark then cursor.skip 1
    else cursor
  let cursor :=
    cursor.skipWhile fun c => c = ' ' || ((lexer.inFlow || !lexer.allowsKey) && c = '\t')
  let cursor := if cursor.rest.head? = some '#' then cursor.skipWhile (!isBreak ·) else cursor
  match steps, cursor.takeBreak with
  | steps + 1, (_ :: _, cursor) =>
    skipBlanks { lexer with cursor, allowsKey := lexer.allowsKey || !lexer.inFlow } steps
  | _, _ => { lexer with cursor }

/-- The reader behind a mark of `size` characters. -/
def skip (lexer : Lexer) (size : Nat) : Lexer :=
  { lexer with cursor := lexer.cursor.skip size }

/-- Reads a directive. -/
def directive? (lexer : Lexer) : Option Lexer := do
  let lexer ← lexer.closeAllBlocks.dropKey?
  let (token, cursor) ← Yaml.directive? lexer.cursor
  return { lexer.emit token with cursor, allowsKey := false }

/-- Reads the mark that begins or ends a document. -/
def documentMarker? (lexer : Lexer) (token : Token) : Option Lexer := do
  let lexer ← lexer.closeAllBlocks.dropKey?
  return { (lexer.emit token).skip 3 with allowsKey := false }

/-- Reads an opening bracket or brace. -/
def openFlow? (lexer : Lexer) (token : Token) : Option Lexer := do
  let lexer ← lexer.saveKey?
  return { (lexer.emit token).skip 1 with
    flowKeys := none :: lexer.flowKeys
    allowsKey := true }

/-- Reads a closing bracket or brace. -/
def closeFlow? (lexer : Lexer) (token : Token) : Option Lexer := do
  let lexer ← lexer.dropKey?
  return { (lexer.emit token).skip 1 with
    flowKeys := lexer.flowKeys.drop 1
    allowsKey := false }

/-- Reads a comma. -/
def flowEntry? (lexer : Lexer) : Option Lexer := do
  let lexer ← lexer.dropKey?
  return { (lexer.emit .flowEntry).skip 1 with allowsKey := true }

/-- Reads the dash before an item. -/
def blockEntry? (lexer : Lexer) : Option Lexer := do
  if !lexer.inFlow && !lexer.allowsKey then none
  else
    let column := lexer.cursor.mark.column
    let lexer ← (lexer.openBlock column lexer.tokens.length .blockSequenceStart).dropKey?
    return { (lexer.emit .blockEntry).skip 1 with allowsKey := true }

/-- Reads the question mark before a key. -/
def key? (lexer : Lexer) : Option Lexer := do
  if !lexer.inFlow && !lexer.allowsKey then none
  else
    let column := lexer.cursor.mark.column
    let lexer ← (lexer.openBlock column lexer.tokens.length .blockMappingStart).dropKey?
    return { (lexer.emit .key).skip 1 with allowsKey := !lexer.inFlow }

/-- Reads the colon before a value. If a key may have begun before it, there was one. -/
def value? (lexer : Lexer) : Option Lexer :=
  match lexer.key with
  | some place =>
    let lexer := lexer.insertAt place.number .key
    let lexer := lexer.openBlock place.mark.column place.number .blockMappingStart
    let lexer := lexer.setKey none
    some { (lexer.emit .value).skip 1 with allowsKey := false }
  | none =>
    if !lexer.inFlow && !lexer.allowsKey then none
    else
      let column := lexer.cursor.mark.column
      let lexer := lexer.openBlock column lexer.tokens.length .blockMappingStart
      some { (lexer.emit .value).skip 1 with allowsKey := !lexer.inFlow }

/-- Reads the name of an anchor or alias. -/
def name? (lexer : Lexer) (token : List Char → Token) : Option Lexer := do
  let lexer ← lexer.saveKey?
  let (name, cursor) := (lexer.cursor.skip 1).takeWhile isWordChar
  let isEnded := startsBlank cursor.rest || cursor.rest.head?.any "?:,]\x7d%@`".toList.contains
  if name.isEmpty || !isEnded then none
  else return { lexer.emit (token name) with cursor, allowsKey := false }

/-- Reads a tag. -/
def tag? (lexer : Lexer) : Option Lexer := do
  let lexer ← lexer.saveKey?
  let (token, cursor) ← Yaml.tag? lexer.cursor
  if startsBlank cursor.rest || (lexer.inFlow && cursor.rest.head? = some ',') then
    return { lexer.emit token with cursor, allowsKey := false }
  else none

/-- Reads a block scalar. -/
def blockScalar? (lexer : Lexer) (style : Style) : Option Lexer := do
  let lexer ← lexer.dropKey?
  let (text, cursor) ← Yaml.blockScalar? (style = .literal) lexer.indent? lexer.cursor
  return { lexer.emit (.scalar style text) with cursor, allowsKey := true }

/-- Reads a quoted scalar. -/
def quotedScalar? (lexer : Lexer) (style : Style) (quote : Char) : Option Lexer := do
  let lexer ← lexer.saveKey?
  let (text, cursor) ← Yaml.quotedScalar? quote lexer.cursor
  return { lexer.emit (.scalar style text) with cursor, allowsKey := false }

/-- Reads a plain scalar. A key may begin after it on another line. -/
def plainScalar? (lexer : Lexer) : Option Lexer := do
  let lexer ← lexer.saveKey?
  let setting : Setting :=
    { inFlow := lexer.inFlow, indent := match lexer.indent? with | some n => n + 1 | none => 0 }
  let scalar ← Yaml.plainScalar? setting lexer.cursor
  return { lexer.emit (.scalar .plain scalar.text) with
    cursor := scalar.cursor
    allowsKey := scalar.endsLine }

/-- The characters that no plain scalar begins with, the dash, question mark and colon aside. -/
def indicators : List Char :=
  ",[]\x7b\x7d#&*!|>'\"%@`".toList

/-- Whether a plain scalar begins at a text. -/
def startsPlain (inFlow : Bool) : List Char → Bool
  | [] => false
  | c :: rest =>
    if isBlank c || isBreak c || indicators.contains c then false
    else if c = '-' then !rest.head?.any isBlank
    else if c = '?' || c = ':' then !inFlow && !startsBlank rest
    else true

/-- Reads the token at the cursor, which stands at a character. -/
def token? (lexer : Lexer) (c : Char) (rest : List Char) : Option Lexer :=
  let isFirst := lexer.cursor.mark.column = 0
  let isLone := lexer.inFlow || startsBlank rest
  if isFirst && c = '%' then lexer.directive?
  else if isFirst && startsMarker '-' (c :: rest) then lexer.documentMarker? .documentStart
  else if isFirst && startsMarker '.' (c :: rest) then lexer.documentMarker? .documentEnd
  else if c = '[' then lexer.openFlow? .flowSequenceStart
  else if c = '{' then lexer.openFlow? .flowMappingStart
  else if c = ']' then lexer.closeFlow? .flowSequenceEnd
  else if c = '}' then lexer.closeFlow? .flowMappingEnd
  else if c = ',' then lexer.flowEntry?
  else if c = '-' && startsBlank rest then lexer.blockEntry?
  else if c = '?' && isLone then lexer.key?
  else if c = ':' && isLone then lexer.value?
  else if c = '*' then lexer.name? .alias
  else if c = '&' then lexer.name? .anchor
  else if c = '!' then lexer.tag?
  else if c = '|' && !lexer.inFlow then lexer.blockScalar? .literal
  else if c = '>' && !lexer.inFlow then lexer.blockScalar? .folded
  else if c = '\'' then lexer.quotedScalar? .singleQuoted '\''
  else if c = '"' then lexer.quotedScalar? .doubleQuoted '"'
  else if startsPlain lexer.inFlow (c :: rest) then lexer.plainScalar?
  else none

/-- The tokens of a text from the reader on, in order, up to the first that cannot be read. Each
step takes a token. -/
def run (lexer : Lexer) (steps : Nat) : List Token :=
  match steps with
  | 0 => lexer.tokens.reverse
  | steps + 1 =>
    let next? : Option (Lexer ⊕ List Token) := do
      let lexer := lexer.skipBlanks lexer.cursor.rest.length
      let lexer ← lexer.dropStaleKeys?
      let lexer := lexer.closeBlocks lexer.cursor.mark.column
      match lexer.cursor.rest with
      | [] =>
        let lexer ← lexer.closeAllBlocks.dropKey?
        return .inr (lexer.emit .streamEnd).tokens.reverse
      | c :: rest => return .inl (← lexer.token? c rest)
    match next? with
    | some (.inl lexer) => lexer.run steps
    | some (.inr tokens) => tokens
    | none => lexer.tokens.reverse

end Lexer

/-- The tokens of a text, in order. The last one is the end of the stream unless some part of the
text cannot be read; then they end before that part. -/
def Token.ofText (text : List Char) : List Token :=
  let text := if text.head? = some byteOrderMark then text.drop 1 else text
  if text.all isAllowed then Lexer.run { cursor := ⟨.start, text⟩ } (text.length + 1) else []

end Stencil.Yaml
