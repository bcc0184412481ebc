import Stencil.Text.Identifier
import Stencil.Value

/-!
# Templates

A template is a text in which `$name` and `${name}` stand for the values of names and `$$` for a
dollar sign. It is cut into pieces, each of which knows what it stands for; a dollar sign that
begins none of these is a piece that knows its place. Rendering puts the texts of the pieces one
after the other, and fails at the first that has none. What is put in is never looked at again.
-/

namespace Stencil.Template

/-- A place in a text. -/
structure Position where
  /-- The number of the line, from one on. -/
  line : Nat
  /-- The number of the character in its line, from one on. -/
  column : Nat
  deriving DecidableEq, Repr

namespace Position

/-- The place where a text starts. -/
def start : Position := ⟨1, 1⟩

/-- The place after a character. -/
def next (position : Position) (c : Char) : Position :=
  if c = '\n' then ⟨position.line + 1, 1⟩ else ⟨position.line, position.column + 1⟩

/-- The place after a text. -/
def after (position : Position) (text : List Char) : Position :=
  text.foldl next position

end Position

/-- A piece of a template. -/
inductive Piece where
  /-- A character that stands for itself. -/
  | char (c : Char)
  /-- A name that stands for its value. -/
  | placeholder (name : String)
  /-- A dollar sign that begins no placeholder. -/
  | stray (position : Position)
  deriving DecidableEq, Repr

/-- What a dollar sign begins: the piece, and the text after the dollar sign that belongs to it. -/
structure Substitution where
  piece : Piece
  taken : List Char

/-- What a dollar sign begins, from the text after it. -/
def substitution? (text : List Char) : Option Substitution :=
  match text with
  | '$' :: _ => some ⟨.char '$', ['$']⟩
  | '{' :: rest =>
    match Text.identifier? rest with
    | some (name, '}' :: _) => some ⟨.placeholder (String.ofList name), '{' :: name ++ ['}']⟩
    | _ => none
  | _ => (Text.identifier? text).map fun (name, _) => ⟨.placeholder (String.ofList name), name⟩

/-- The pieces of a template that starts at a place. -/
def piecesFrom (position : Position) (text : List Char) : List Piece :=
  match text with
  | [] => []
  | c :: rest =>
    if c = '$' then
      match substitution? rest with
      | some ⟨piece, taken⟩ =>
        piece :: piecesFrom (position.after (c :: taken)) (rest.drop taken.length)
      | none => .stray position :: piecesFrom (position.next c) rest
    else .char c :: piecesFrom (position.next c) rest
termination_by text.length
decreasing_by
  · simp only [List.length_drop, List.length_cons]; omega
  · simp
  · simp

/-- The pieces of a template. -/
def pieces (text : List Char) : List Piece :=
  piecesFrom .start text

/-- Why a template cannot be rendered. -/
inductive Fault where
  /-- A name has no value. -/
  | missingPlaceholder (name : String)
  /-- The value of a name has no text. -/
  | invalidValue (name : String)
  /-- A dollar sign begins no placeholder. -/
  | invalidPlaceholder (position : Position)
  deriving DecidableEq, Repr

/-- Why a template cannot be rendered, in words. -/
def Fault.message : Fault → String
  | .missingPlaceholder name => "missing placeholder: " ++ name
  | .invalidValue name => "invalid value for placeholder: " ++ name
  | .invalidPlaceholder position =>
    "invalid placeholder in line " ++ toString position.line ++ ", col "
      ++ toString position.column

/-- The text that the value of a name is rendered as. Null is rendered as nothing, arrays and
objects cannot be rendered. -/
def valueText (name : String) (value : Value) : Except Fault String :=
  match value with
  | .null => .ok ""
  | value =>
    match value.text? with
    | some text => .ok text
    | none => .error (.invalidValue name)

/-- The text that a piece stands for. -/
def Piece.render (names : String → Option Value) : Piece → Except Fault (List Char)
  | .char c => .ok [c]
  | .placeholder name =>
    match names name with
    | some value => (valueText name value).map String.toList
    | none => .error (.missingPlaceholder name)
  | .stray position => .error (.invalidPlaceholder position)

/-- The text that pieces stand for. -/
def renderPieces (names : String → Option Value) : List Piece → Except Fault (List Char)
  | [] => .ok []
  | piece :: pieces => do
    let text ← piece.render names
    let rest ← renderPieces names pieces
    return text ++ rest

/-- The text that a template stands for, given the values of names. -/
def render (names : String → Option Value) (template : String) : Except Fault String :=
  (renderPieces names (pieces template.toList)).map String.ofList

end Stencil.Template
