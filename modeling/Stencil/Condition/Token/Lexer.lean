import Stencil.Condition.Token
import Stencil.Text.Identifier

/-!
# Reading tokens

A text is cut into lexemes, each the longest that begins where the one before it ended; spaces are
lexemes without a token. Each lexeme counts the bytes that it takes of the text.

Main statement: a lexeme takes at least one character, so that cutting a text comes to an end
(the subtype of `lexeme?`).
-/

namespace Stencil.Condition

/-- The characters that may stand between two tokens. -/
def isSpace (c : Char) : Bool :=
  c = ' ' || c = '\t' || c = '\n' || c.toNat = 0x0C || c = '\r'

/-- The character that a backslash and `c` stand for in a string. -/
def unescape (c : Char) : Char :=
  if c = 'n' then '\n' else if c = 't' then '\t' else c

/-- What a string literal holds after its opening quote: its characters, the number of bytes up to
and with its closing quote, and what follows. -/
def stringRest? (quote : Char) : List Char → Option (List Char × Nat × List Char)
  | [] => none
  | '\\' :: c :: cs =>
    (stringRest? quote cs).map fun (text, size, rest) =>
      (unescape c :: text, 1 + c.utf8Size + size, rest)
  | c :: cs =>
    if c = quote then some ([], c.utf8Size, cs)
    else
      (stringRest? quote cs).map fun (text, size, rest) => (c :: text, c.utf8Size + size, rest)

/-- The least integer of a condition. -/
def minInteger : Int := -0x8000000000000000

/-- The largest integer of a condition. -/
def maxInteger : Int := 0x7FFFFFFFFFFFFFFF

/-- The number of a numeral: digits, perhaps with a minus sign before them. -/
def numeral (text : List Char) : Except NumeralFault Int :=
  match text with
  | '-' :: digits =>
    if digits.isEmpty then .error .noDigits
    else if -(Text.digitsValue digits : Int) < minInteger then .error .tooSmall
    else .ok (-Text.digitsValue digits)
  | digits =>
    if maxInteger < Text.digitsValue digits then .error .tooLarge else .ok (Text.digitsValue digits)

/-- A piece of a text. -/
structure Lexeme where
  /-- The token that it is, none for spaces. -/
  token : Option Token
  /-- The number of its bytes. -/
  size : Nat
  /-- What follows it. -/
  rest : List Char

theorem length_of_stringRest? {quote : Char} {text read rest : List Char} {size : Nat}
    (h : stringRest? quote text = some (read, size, rest)) : rest.length < text.length := by
  fun_induction stringRest? quote text generalizing read size rest with
  | case1 => simp at h
  | case2 c cs ih =>
    obtain ⟨⟨read', size', rest'⟩, hcs, he⟩ := Option.map_eq_some_iff.1 h
    have := ih hcs
    simp only [Prod.mk.injEq] at he
    simp only [List.length_cons, ← he.2.2]
    omega
  | case3 c cs =>
    simp only [Option.some.injEq, Prod.mk.injEq] at h
    simp [← h.2.2]
  | case4 c cs _ _ ih =>
    obtain ⟨⟨read', size', rest'⟩, hcs, he⟩ := Option.map_eq_some_iff.1 h
    have := ih hcs
    simp only [Prod.mk.injEq] at he
    simp only [List.length_cons, ← he.2.2]
    omega

theorem length_dropWhile_lt {p : Char → Bool} {c : Char} {cs : List Char} :
    (cs.dropWhile p).length < (c :: cs).length :=
  Nat.lt_succ_of_le (List.dropWhile_sublist p).length_le

/-- The lexeme at the start of a text that is not empty. -/
def lexeme (c : Char) (cs : List Char) :
    Except SyntaxFault { lexeme : Lexeme // lexeme.rest.length < (c :: cs).length } :=
  if c = '(' then .ok ⟨⟨some .leftParenthesis, 1, cs⟩, Nat.lt_succ_self _⟩
  else if c = ')' then .ok ⟨⟨some .rightParenthesis, 1, cs⟩, Nat.lt_succ_self _⟩
  else if c = '[' then .ok ⟨⟨some .leftBracket, 1, cs⟩, Nat.lt_succ_self _⟩
  else if c = ']' then .ok ⟨⟨some .rightBracket, 1, cs⟩, Nat.lt_succ_self _⟩
  else if c = ',' then .ok ⟨⟨some .comma, 1, cs⟩, Nat.lt_succ_self _⟩
  else if c = '.' then .ok ⟨⟨some .dot, 1, cs⟩, Nat.lt_succ_self _⟩
  else if c = '=' then
    match cs with
    | '=' :: cs => .ok ⟨⟨some .equal, 2, cs⟩, by simp only [List.length_cons]; omega⟩
    | _ => .error .singleEquals
  else if c = '!' then
    match cs with
    | '=' :: cs => .ok ⟨⟨some .notEqual, 2, cs⟩, by simp only [List.length_cons]; omega⟩
    | _ => .error .singleBang
  else if c = '"' || c = '\'' then
    match h : stringRest? c cs with
    | some (text, size, rest) =>
      .ok ⟨⟨some (.string (String.ofList text)), 1 + size, rest⟩,
        Nat.lt_succ_of_lt (length_of_stringRest? h)⟩
    | none => .error .openString
  else if isSpace c then
    .ok ⟨⟨none, 1 + (cs.takeWhile isSpace).length, cs.dropWhile isSpace⟩, length_dropWhile_lt⟩
  else if c.isDigit || c = '-' then
    let digits := c :: cs.takeWhile Char.isDigit
    match numeral digits with
    | .ok value =>
      .ok ⟨⟨some (.integer value), digits.length, cs.dropWhile Char.isDigit⟩, length_dropWhile_lt⟩
    | .error fault => .error (.numeral (String.ofList digits) fault)
  else if Text.isIdentifierStart c then
    let word := c :: cs.takeWhile Text.isIdentifierChar
    .ok ⟨⟨some (.ofWord (String.ofList word)), word.length, cs.dropWhile Text.isIdentifierChar⟩,
      length_dropWhile_lt⟩
  else .error (.character c)

/-- The lexemes of a text, in order. -/
def lexemes (text : List Char) : Except SyntaxFault (List Lexeme) :=
  match text with
  | [] => .ok []
  | c :: cs =>
    match lexeme c cs with
    | .ok ⟨first, _h⟩ => (lexemes first.rest).map (first :: ·)
    | .error fault => .error fault
termination_by text.length
decreasing_by exact _h

/-- The tokens of a text, in order. -/
def tokens (text : List Char) : Except SyntaxFault (List Token) :=
  (lexemes text).map fun lexemes => lexemes.filterMap Lexeme.token

end Stencil.Condition
