import Stencil.Glob

/-!
# Reading patterns

A pattern is read from left to right. An asterisk stands for any bytes; two in a row stand for
directories if they are a whole part between slashes. Brackets hold ranges of characters, braces
hold alternatives with commas between them, and a backslash makes the next character a literal one.
The first fault counts.
-/

namespace Stencil.Glob

/-- Why a text is no pattern. -/
inductive Fault where
  /-- A bracket is not closed. -/
  | unclosedClass
  /-- A range starts after its end. -/
  | invalidRange (first last : Char)
  /-- A brace is not closed. -/
  | unclosedAlternatives
  /-- A brace is closed that is not open. -/
  | unopenedAlternatives
  /-- Nothing follows a backslash. -/
  | danglingEscape
  deriving DecidableEq, Repr

/-- Why a text is no pattern, in words. -/
def Fault.message : Fault → String
  | .unclosedClass => "unclosed character class; missing ']'"
  | .invalidRange first last =>
    "invalid range; '" ++ String.singleton first ++ "' > '" ++ String.singleton last ++ "'"
  | .unclosedAlternatives =>
    "unclosed alternate group; missing '\x7d' (maybe escape '\x7b' with '[\x7b]'?)"
  | .unopenedAlternatives =>
    "unopened alternate group; missing '\x7b' (maybe escape '\x7d' with '[\x7d]'?)"
  | .danglingEscape => "dangling '\\'"

/-! ## Brackets -/

/-- The ranges of which the last one, which comes first, is made to end with a character. -/
def extend (last : Char) : List (Char × Char) → Except Fault (List (Char × Char))
  | (a, _) :: ranges =>
    if last < a then .error (.invalidRange a last) else .ok ((a, last) :: ranges)
  | [] => .ok [(last, last)]

/-- The ranges up to the closing bracket, the last one first, and what follows it. `read` are those
so far, and `hasHyphen` tells whether a hyphen waits for the end of the last one. -/
def ranges (hasHyphen : Bool) (read : List (Char × Char)) :
    (text : List Char) →
      Except Fault (List (Char × Char) × { r : List Char // r.length < text.length })
  | [] => .error .unclosedClass
  | c :: rest => do
    if c = ']' && !read.isEmpty then
      return (if hasHyphen then ('-', '-') :: read else read, ⟨rest, by simp⟩)
    else if c = '-' && !read.isEmpty && !hasHyphen then
      let (read, ⟨rest', h⟩) ← ranges true read rest
      return (read, ⟨rest', by simp; omega⟩)
    else
      let read ← if hasHyphen then extend c read else .ok ((c, c) :: read)
      let (read, ⟨rest', h⟩) ← ranges false read rest
      return (read, ⟨rest', by simp; omega⟩)

/-- The token of brackets, from the text after the opening one, and what follows the closing one. -/
def brackets (text : List Char) :
    Except Fault (Token × { r : List Char // r.length < text.length }) :=
  match text with
  | '!' :: rest | '^' :: rest => do
    let (read, ⟨rest', h⟩) ← ranges false [] rest
    return (.oneOf true read.reverse, ⟨rest', by simp; omega⟩)
  | text => do
    let (read, rest) ← ranges false [] text
    return (.oneOf false read.reverse, rest)

/-! ## Asterisks -/

/-- What two asterisks do to the tokens before them, the last one first: the tokens then, and
whether the slash after the asterisks belongs to them. -/
def doubleAsterisk (before : Option Char) (isNested : Bool) (tokens : List Token)
    (next : Option Char) : List Token × Bool :=
  let asText := (.anyText :: .anyText :: tokens, false)
  let isPartStart :=
    before = some '/' || (isNested && (before = some ',' || before = some '\x7b'))
  match tokens with
  | [] => if next = none || next = some '/' then ([.directoriesBefore], next = some '/') else asText
  | last :: earlier =>
    let isEnd := next = none || (isNested && (next = some ',' || next = some '\x7d'))
    if !isPartStart || !(isEnd || next = some '/') then asText
    else
      match last with
      | .directoriesBefore | .allWithin => (last :: earlier, next = some '/')
      | _ => ((if isEnd then .allWithin else .directoriesBetween) :: earlier, next = some '/')

/-! ## Whole patterns -/

/-- What stands before the alternatives that are being read. -/
structure Frame where
  /-- The tokens before the brace, the last one first. -/
  before : List Token
  /-- The alternatives that are read, the last one first. -/
  branches : List (List Token)

/-- The tokens of a text. `before` is the character before it, `frames` are the open braces, and
`tokens` are the tokens so far, the last one first. -/
def read (before : Option Char) (frames : List Frame) (tokens : List Token) (text : List Char) :
    Except Fault (List Token) :=
  match text with
  | [] => if frames.isEmpty then .ok tokens.reverse else .error .unclosedAlternatives
  | '?' :: rest => read (some '?') frames (.any :: tokens) rest
  | '*' :: '*' :: rest =>
    let (tokens, takesSlash) := doubleAsterisk before (!frames.isEmpty) tokens rest.head?
    if takesSlash then read (some '/') frames tokens rest.tail
    else read (some '*') frames tokens rest
  | '*' :: rest => read (some '*') frames (.anyText :: tokens) rest
  | '[' :: rest => do
    let (token, ⟨rest, _h⟩) ← brackets rest
    read (some ']') frames (token :: tokens) rest
  | '\x7b' :: rest => read (some '\x7b') (⟨tokens, []⟩ :: frames) [] rest
  | '\x7d' :: rest =>
    match frames with
    | [] => .error .unopenedAlternatives
    | frame :: frames =>
      let branches := (tokens.reverse :: frame.branches).reverse
      read (some '\x7d') frames (.alternatives branches :: frame.before) rest
  | ',' :: rest =>
    match frames with
    | [] => read (some ',') [] (.literal ',' :: tokens) rest
    | frame :: frames =>
      read (some ',') (⟨frame.before, tokens.reverse :: frame.branches⟩ :: frames) [] rest
  | '\\' :: c :: rest => read (some c) frames (.literal c :: tokens) rest
  | ['\\'] => .error .danglingEscape
  | c :: rest => read (some c) frames (.literal c :: tokens) rest
termination_by text.length
decreasing_by all_goals simp_all <;> omega

/-- The pattern that a text is. -/
def parse (text : String) : Except Fault Glob := do
  return ⟨← read none [] [] text.toList⟩

end Stencil.Glob
