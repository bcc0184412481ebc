import Stencil.Text.Blank
import Stencil.Text.Identifier

/-!
# Declarations

A declaration is a line of the form `[modifiers] type [*]name [= initializer];`. The words that may
stand before the type, and those that may be part of a type of several words, are taken greedily;
where the rest of the line then does not fit, one word less is tried. So `unsigned int;` declares
a variable `int` of the type `unsigned`, as nothing else fits.

Declarations are ordered by what a reader looks for first: pointers before values, then the rank
of the type, then the type without its ending `_t`, then the name.
-/

namespace Stencil.Source

/-- A declared variable. -/
structure Declaration where
  /-- The words before the type, as they are written, without the blanks after them. -/
  modifiers : List Char
  /-- The type, as it is written, without a star. -/
  typeName : List Char
  /-- Whether a star stands between the type and the name. -/
  isPointer : Bool
  /-- The name, with the brackets of an array. -/
  name : List Char
  deriving DecidableEq, Repr

namespace Declaration

/-- The words that may stand before a type. -/
def modifierWords : List (List Char) :=
  ["static", "const", "volatile", "register", "unsigned", "signed", "struct", "enum",
    "union"].map String.toList

/-- The words that may begin a type of several words. -/
def sizeWords : List (List Char) :=
  ["long", "short"].map String.toList

/-- The known types, those that are declared first in front. -/
def knownTypes : List (List Char) :=
  ["FILE", "size64_t", "size32_t", "size_t", "ssize_t", "off64_t", "off_t", "uint64_t", "int64_t",
    "uint32_t", "int32_t", "uint16_t", "int16_t", "uint8_t", "int8_t", "double", "float",
    "intptr_t", "int", "wchar_t", "char", "void"].map String.toList

/-- One of `words` at the start of the text with the blanks after it, at least one, and what
follows them. -/
def word? (words : List (List Char)) (text : List Char) : Option (List Char × List Char) := do
  let (word, rest) ← Text.identifier? text
  let blanks := rest.takeWhile Text.isBlank
  if words.contains word && !blanks.isEmpty then
    some (word ++ blanks, rest.dropWhile Text.isBlank)
  else none

theorem length_of_word? {words : List (List Char)} {text taken rest : List Char}
    (h : word? words text = some (taken, rest)) : rest.length < text.length := by
  unfold word? at h
  cases hi : Text.identifier? text with
  | none => simp [hi] at h
  | some parts =>
    obtain ⟨word, after⟩ := parts
    simp only [hi, Option.bind_eq_bind, Option.bind_some] at h
    split at h
    · simp only [Option.some.injEq, Prod.mk.injEq] at h
      rw [← h.2]
      exact Nat.lt_of_le_of_lt (List.dropWhile_sublist _).length_le (Text.length_of_identifier? hi)
    · simp at h

/-- The brackets at the start of the text, each with what stands up to the next closing bracket,
and what follows them. `inside` tells whether a bracket is open. -/
def brackets (inside : Bool) : List Char → Option (List Char × List Char)
  | [] => if inside then none else some ([], [])
  | c :: cs =>
    if inside then (brackets (c != ']') cs).map fun (taken, rest) => (c :: taken, rest)
    else if c = '[' then
      match brackets true cs with
      | some (taken, rest) => some (c :: taken, rest)
      | none => some ([], c :: cs)
    else some ([], c :: cs)

/-- Whether the text after a name ends the declaration: blanks, perhaps `=` and an initializer of
one line, and a semicolon that is the last character. -/
def endsDeclaration (text : List Char) : Bool :=
  match text.dropWhile Text.isBlank with
  | [';'] => true
  | '=' :: initializer => initializer.getLast? = some ';' && !initializer.contains '\n'
  | _ => false

/-- The star or blanks between a type and a name: whether there is a star, and what follows. -/
def gap? (text : List Char) : Option (Bool × List Char) :=
  match text, text.dropWhile Text.isBlank with
  | _, '*' :: rest => some (true, (rest.dropWhile (· = '*')).dropWhile Text.isBlank)
  | [], _ => none
  | c :: _, rest => if Text.isBlank c then some (false, rest) else none

/-- A declaration that begins with the last word of its type; `before` is what the type begins
with. -/
def parseType? (modifiers before text : List Char) : Option Declaration := do
  let (word, rest) ← Text.identifier? text
  let (isPointer, rest) ← gap? rest
  let (name, rest) ← Text.identifier? rest
  let (suffix, rest) ← brackets false rest
  if endsDeclaration rest then
    some
      { modifiers := Text.trimEnd modifiers
        typeName := before ++ word
        isPointer
        name := name ++ suffix }
  else none

/-- A declaration that begins with its type, of as many words as fit. -/
def parseSizes? (modifiers before text : List Char) : Option Declaration :=
  match _h : word? sizeWords text with
  | some (taken, rest) =>
    (parseSizes? modifiers (before ++ taken) rest).or (parseType? modifiers before text)
  | none => parseType? modifiers before text
termination_by text.length
decreasing_by exact length_of_word? _h

/-- A declaration that begins with its modifiers, as many as fit. -/
def parseModifiers? (before text : List Char) : Option Declaration :=
  match _h : word? modifierWords text with
  | some (taken, rest) => (parseModifiers? (before ++ taken) rest).or (parseSizes? before [] text)
  | none => parseSizes? before [] text
termination_by text.length
decreasing_by exact length_of_word? _h

/-- The declaration that a line is, blanks at its ends aside. -/
def parse? (line : List Char) : Option Declaration :=
  parseModifiers? [] (Text.trim line)

/-- The place of the type among the known types, from one on; zero for any other type, so that
these come first. -/
def rank (d : Declaration) : Nat :=
  match knownTypes.idxOf? d.typeName with
  | some place => place + 1
  | none => 0

/-- The type without an ending `_t`. -/
def stem (d : Declaration) : List Char :=
  if ['_', 't'].isSuffixOf d.typeName then d.typeName.take (d.typeName.length - 2) else d.typeName

/-- The order of declarations: pointers first, then by rank, by the stem of the type, by name. -/
def compare (a b : Declaration) : Ordering :=
  (Ord.compare (!a.isPointer) (!b.isPointer)).then <|
    (Ord.compare a.rank b.rank).then <|
      (Ord.compare a.stem b.stem).then (Ord.compare a.name b.name)

end Declaration

end Stencil.Source
