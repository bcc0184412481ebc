import Stencil.Value

/-!
# Expressions of conditions

What a condition says: constants, names with attributes, lists, comparisons and the three
connectives.
-/

namespace Stencil.Condition

/-- A value that is written out. -/
inductive Literal where
  | none
  | bool (value : Bool)
  | integer (value : Int)
  | string (text : String)
  deriving DecidableEq, Repr

/-- The value that is written. -/
def Literal.value : Literal → Value
  | .none => .null
  | .bool value => .bool value
  | .integer value => .number (.integer value)
  | .string text => .string text

/-- How two operands are compared. -/
inductive Comparison where
  | equal
  | notEqual
  | member
  | notMember
  deriving DecidableEq, Repr

/-- An expression of a condition. -/
inductive Expression where
  | literal (literal : Literal)
  /-- The words of a name: the first one has a value, and the others are the attributes that lead
  from it to the value that is meant. -/
  | name (path : List String)
  | list (items : List Expression)
  | not (inner : Expression)
  | and (left right : Expression)
  | or (left right : Expression)
  | compare (comparison : Comparison) (left right : Expression)
  deriving Repr, Inhabited

end Stencil.Condition
