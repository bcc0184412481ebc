import Stencil.Text.Quoted

/-!
# Tokens of conditions

The words and signs that a condition is made of. Keywords are spelled like names; the truth values
have two spellings each.
-/

namespace Stencil.Condition

/-- A word or sign of a condition. -/
inductive Token where
  | name (text : String)
  | string (text : String)
  | integer (value : Int)
  | true
  | false
  | none
  | and
  | or
  | not
  | in
  | equal
  | notEqual
  | leftParenthesis
  | rightParenthesis
  | leftBracket
  | rightBracket
  | comma
  | dot
  deriving DecidableEq, Repr

namespace Token

/-- The words that are no names. -/
def keywords : List (String × Token) :=
  [("and", .and), ("or", .or), ("not", .not), ("in", .in), ("True", .true), ("true", .true),
    ("False", .false), ("false", .false), ("None", .none)]

/-- The token of a word. -/
def ofWord (word : String) : Token :=
  (keywords.lookup word).getD (.name word)

/-- The token as it is called in messages. -/
def label : Token → String
  | .name text => "Name(" ++ Text.quoted text ++ ")"
  | .string text => "Str(" ++ Text.quoted text ++ ")"
  | .integer value => "Int(" ++ toString value ++ ")"
  | .true => "True"
  | .false => "False"
  | .none => "None"
  | .and => "And"
  | .or => "Or"
  | .not => "Not"
  | .in => "In"
  | .equal => "Eq"
  | .notEqual => "Ne"
  | .leftParenthesis => "LParen"
  | .rightParenthesis => "RParen"
  | .leftBracket => "LBracket"
  | .rightBracket => "RBracket"
  | .comma => "Comma"
  | .dot => "Dot"

/-- The next token as it is called in messages, or the end of the condition. -/
def labelOfNext : Option Token → String
  | .some token => token.label
  | .none => "Eof"

end Token

/-- Why a numeral is no number of 64 bits. -/
inductive NumeralFault where
  | tooLarge
  | tooSmall
  | noDigits
  deriving DecidableEq, Repr

/-- What is wrong with a numeral, in words. -/
def NumeralFault.message : NumeralFault → String
  | .tooLarge => "number too large to fit in target type"
  | .tooSmall => "number too small to fit in target type"
  | .noDigits => "invalid digit found in string"

/-- Why a text is no condition. The end of the text is the token `none`. -/
inductive SyntaxFault where
  /-- A string literal has no closing quote. -/
  | openString
  /-- One equals sign stands alone. -/
  | singleEquals
  /-- An exclamation mark stands alone. -/
  | singleBang
  /-- A numeral is no number of 64 bits. -/
  | numeral (digits : String) (fault : NumeralFault)
  /-- A character begins no token. -/
  | character (c : Char)
  /-- Another token has to stand here. -/
  | expected (token got : Option Token)
  /-- A word `not` after an operand is not followed by `in`. -/
  | loneNot
  /-- A dot is not followed by a name. -/
  | attribute (got : Option Token)
  /-- No operand begins with this token. -/
  | unexpected (got : Option Token)
  deriving DecidableEq, Repr

/-- What is wrong with a condition, in words. -/
def SyntaxFault.message : SyntaxFault → String
  | .openString => "unterminated string literal"
  | .singleEquals => "expected '=='"
  | .singleBang => "expected '!='"
  | .numeral digits fault => digits ++ ": " ++ fault.message
  | .character c => "unrecognized character '" ++ String.singleton c ++ "'"
  | .expected token got =>
    "expected " ++ Token.labelOfNext token ++ ", got " ++ Token.labelOfNext got
  | .loneNot => "expected 'in' after 'not'"
  | .attribute got => "expected attribute name, got " ++ Token.labelOfNext got
  | .unexpected got => "unexpected token " ++ Token.labelOfNext got

end Stencil.Condition
