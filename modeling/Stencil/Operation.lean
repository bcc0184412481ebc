import Stencil.Condition
import Stencil.Entries
import Stencil.Operation.Modifier

/-!
# Operations

An operation makes text. A group runs others in turn; a selection runs the one that a value selects;
a sequence runs others for each item of a list; a template renders a file. Operations refer to each
other by their identifiers.
-/

namespace Stencil

namespace Operation

/-- What an operation does. -/
inductive Kind where
  /-- Runs operations in turn. -/
  | group (operations : List String)
  /-- Runs the operation that the value of the name `input` selects. -/
  | selection (input : String) (options : Entries String String) (default : Option String)
  /-- Runs operations for each item of the value of the name `input`, the item being the value of
  the name `placeholder`. -/
  | sequence (input : String) (operations : List String) (placeholder : String)
      (fallback : Option String)
  /-- Renders a template; the names of `placeholders` need no value. -/
  | template (file : String) (placeholders : List String) (fallback : Option String)
      (modifiers : List Modifier)

namespace Kind

/-- The name of what an operation does. -/
def name : Kind → String
  | .group .. => "group"
  | .selection .. => "selection"
  | .sequence .. => "sequence"
  | .template .. => "template"

/-- The identifiers of the operations that may be run. -/
def references : Kind → List String
  | .group operations => operations
  | .selection _ options default => options.values ++ default.toList
  | .sequence _ operations _ fallback => operations ++ fallback.toList
  | .template _ _ fallback _ => fallback.toList

/-- What is done to a text before it is written. -/
def modifiers : Kind → List Modifier
  | .template _ _ _ modifiers => modifiers
  | _ => []

end Kind

end Operation

/-- An operation. -/
structure Operation where
  /-- The name by which others refer to the operation. -/
  identifier : String
  /-- The operation is run only if the condition holds. -/
  condition : Option Condition
  /-- What the operation does. -/
  kind : Operation.Kind

/-- The identifiers of the operations that an operation may run. -/
def Operation.references (operation : Operation) : List String :=
  operation.kind.references

end Stencil
