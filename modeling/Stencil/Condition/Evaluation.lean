import Stencil.Condition.Expression
import Stencil.Json.Printer
import Stencil.Text.Line

/-!
# Evaluating conditions

An expression has a value in a namespace, which gives values to names. Connectives look at what
counts as true and give truth values; the right operand of `and` and `or` is not looked at if the
left one decides. A fault of an operand is a fault of the whole.
-/

namespace Stencil.Condition

/-- The values of names. -/
abbrev Namespace := String → Option Value

/-- Why an expression has no value. -/
inductive EvaluationFault where
  | emptyName
  | undefinedName (name : String)
  | missingAttribute (name field : String)
  /-- Only lists, texts and objects have members, the last two only texts. -/
  | unsupportedMember (item container : Value)
  deriving Repr

/-- Why an expression has no value, in words. -/
def EvaluationFault.message : EvaluationFault → String
  | .emptyName => "empty name"
  | .undefinedName name => "name '" ++ name ++ "' is not defined"
  | .missingAttribute name field => "'" ++ name ++ "' has no attribute '" ++ field ++ "'"
  | .unsupportedMember item container =>
    "unsupported operand types for 'in': " ++ item.json ++ " and " ++ container.json

/-- The value that attributes lead to. -/
def attributeValue (name : String) (value : Value) : List String → Except EvaluationFault Value
  | [] => .ok value
  | field :: fields =>
    match value.field? field with
    | some value => attributeValue name value fields
    | none => .error (.missingAttribute name field)

/-- The value of a name. -/
def nameValue (names : Namespace) : List String → Except EvaluationFault Value
  | [] => .error .emptyName
  | first :: attributes =>
    match names first with
    | some value => attributeValue first value attributes
    | none => .error (.undefinedName first)

/-- Whether `item` is in `container`: as an item of a list, a part of a text, a name of a field. -/
def contains (container item : Value) : Except EvaluationFault Bool :=
  match container, item with
  | .array items, item => .ok (items.any (item == ·))
  | .string text, .string part => .ok (Text.occursIn part.toList text.toList)
  | .object fields, .string name => .ok (Value.find? fields name).isSome
  | container, item => .error (.unsupportedMember item container)

/-- The result of a comparison. -/
def Comparison.holds (comparison : Comparison) (left right : Value) :
    Except EvaluationFault Bool :=
  match comparison with
  | .equal => .ok (left == right)
  | .notEqual => .ok (left != right)
  | .member => contains right left
  | .notMember => (contains right left).map (!·)

namespace Expression

mutual

/-- The value of an expression. -/
def evaluate (names : Namespace) : Expression → Except EvaluationFault Value
  | .literal constant => .ok constant.value
  | .name path => nameValue names path
  | .list items => do
    let values ← evaluateItems names items
    return .array values
  | .not inner => do
    let value ← evaluate names inner
    return .bool !value.isTruthy
  | .and left right => do
    let value ← evaluate names left
    if value.isTruthy then
      let value ← evaluate names right
      return .bool value.isTruthy
    else return .bool false
  | .or left right => do
    let value ← evaluate names left
    if value.isTruthy then return .bool true
    else
      let value ← evaluate names right
      return .bool value.isTruthy
  | .compare comparison left right => do
    let left ← evaluate names left
    let right ← evaluate names right
    let holds ← comparison.holds left right
    return .bool holds

/-- The values of the items of a list. -/
def evaluateItems (names : Namespace) : List Expression → Except EvaluationFault (List Value)
  | [] => .ok []
  | item :: items => do
    let value ← evaluate names item
    let values ← evaluateItems names items
    return value :: values

end

end Expression

end Stencil.Condition
