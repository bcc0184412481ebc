import Stencil.Yaml.Node
import Stencil.Yaml.Number

/-!
# Values of YAML documents

A value is what a node says: a plain scalar may be null, a truth value or a number, by its text or
by its tag; any other scalar is a text. Keys of mappings are values, and no mapping has a key twice.
A tag of one's own makes a value of its own.
-/

namespace Stencil.Yaml

/-- What a scalar says. -/
inductive Meaning where
  | null
  | bool (value : Bool)
  | number (value : Number)
  | string (text : String)
  deriving DecidableEq, Repr

namespace Meaning

/-- The texts of null. -/
def nullTexts : List String := ["null", "Null", "NULL", "~"]

/-- The truth value that a text is. -/
def bool? (text : String) : Option Bool :=
  if ["true", "True", "TRUE"].contains text then some true
  else if ["false", "False", "FALSE"].contains text then some false
  else none

/-- What a plain scalar without a tag says; none if it is an integer that is too wide. -/
def ofPlain? (text : String) : Option Meaning :=
  if text = "" || nullTexts.contains text then some .null
  else
    match bool? text with
    | some value => some (.bool value)
    | none =>
      match Number.readInteger text.toList with
      | .integer value => some (.number (.integer value))
      | .tooWide => none
      | .other =>
        if Number.hasLeadingZero text.toList then some (.string text)
        else some (((Number.readDouble? text.toList).map .number).getD (.string text))

/-- What a scalar with one of the tags of YAML itself says. The tag has to fit. -/
def ofTagged? (tag text : String) : Option (Option Meaning) :=
  if tag = "tag:yaml.org,2002:bool" then some ((bool? text).map .bool)
  else if tag = "tag:yaml.org,2002:int" then
    match Number.readInteger text.toList with
    | .integer value => some (some (.number (.integer value)))
    | _ => some none
  else if tag = "tag:yaml.org,2002:float" then
    some ((Number.readDouble? text.toList).map .number)
  else if tag = "tag:yaml.org,2002:null" then
    some (if nullTexts.contains text then some .null else none)
  else none

/-- What a scalar says, a tag of one's own aside; none if it says nothing. -/
def ofScalar? (scalar : Scalar) : Option Meaning :=
  let untagged :=
    if scalar.style = .plain then ofPlain? scalar.text else some (.string scalar.text)
  match scalar.tag with
  | none => untagged
  | some tag =>
    if tag.toList.head? = some '!' then untagged
    else (ofTagged? tag scalar.text).getD (some (.string scalar.text))

end Meaning

/-- The name of a tag of one's own, which starts with an exclamation mark. -/
def ownTag? (tag : Option String) : Option String :=
  match tag.map String.toList with
  | some ['!'] => some "!"
  | some ('!' :: name) => some (String.ofList name)
  | _ => none

/-- A value of a YAML document. -/
inductive Value where
  | null
  | bool (value : Bool)
  | number (value : Number)
  | string (text : String)
  | sequence (items : List Value)
  | mapping (pairs : List (Value × Value))
  | tagged (tag : String) (value : Value)
  deriving Repr, Inhabited

namespace Value

/-- The value of what a scalar says. -/
def ofMeaning : Meaning → Value
  | .null => .null
  | .bool value => .bool value
  | .number value => .number value
  | .string text => .string text

mutual

/-- Whether two values are the same. The order of the pairs of a mapping does not matter. -/
protected def beq : Value → Value → Bool
  | .null, .null => true
  | .bool a, .bool b => a = b
  | .number a, .number b => a == b
  | .string a, .string b => a = b
  | .sequence xs, .sequence ys => beqItems xs ys
  | .mapping ps, .mapping qs => ps.length = qs.length && beqPairs ps qs
  | .tagged s x, .tagged t y => s = t && Value.beq x y
  | _, _ => false

/-- Whether two lists hold the same values in the same order. -/
def beqItems : List Value → List Value → Bool
  | [], [] => true
  | x :: xs, y :: ys => Value.beq x y && beqItems xs ys
  | _, _ => false

/-- Whether each of the pairs is among the others. -/
def beqPairs : List (Value × Value) → List (Value × Value) → Bool
  | [], _ => true
  | (k, x) :: ps, qs => qs.any (fun q => Value.beq k q.1 && Value.beq x q.2) && beqPairs ps qs

end

instance : BEq Value := ⟨Value.beq⟩

/-- The value with its own tag, if it has one. -/
def withTag (tag : Option String) (value : Value) : Value :=
  match ownTag? tag with
  | some tag => .tagged tag value
  | none => value

/-- Whether no key is there twice. -/
def hasDistinctKeys : List (Value × Value) → Bool
  | [] => true
  | (key, _) :: pairs => pairs.all (fun pair => !(key == pair.1)) && hasDistinctKeys pairs

mutual

/-- The value of a node; none if it says nothing or has a key twice. -/
def ofNode? : Node → Option Value
  | .scalar scalar => (Meaning.ofScalar? scalar).map fun m => withTag scalar.tag (ofMeaning m)
  | .sequence tag items => (ofItems? items).map fun items => withTag tag (.sequence items)
  | .mapping tag pairs => do
    let pairs ← ofPairs? pairs
    if hasDistinctKeys pairs then some (withTag tag (.mapping pairs)) else none

/-- The values of items. -/
def ofItems? : List Node → Option (List Value)
  | [] => some []
  | item :: items => do
    let item ← ofNode? item
    let items ← ofItems? items
    some (item :: items)

/-- The values of pairs. -/
def ofPairs? : List (Node × Node) → Option (List (Value × Value))
  | [] => some []
  | (key, value) :: pairs => do
    let key ← ofNode? key
    let value ← ofNode? value
    let pairs ← ofPairs? pairs
    some ((key, value) :: pairs)

end

/-- The text of a scalar value: a text, a number or a truth value. -/
def text? : Value → Option String
  | .string text => some text
  | .number value => some value.text
  | .bool value => some (toString value)
  | _ => none

/-- The text that a key is, a tag of one's own aside. -/
def keyText? : Value → Option String
  | .string text => some text
  | .tagged _ value => keyText? value
  | _ => none

/-- The value of a key that is a text. -/
def field? (pairs : List (Value × Value)) (name : String) : Option Value :=
  (pairs.find? fun pair => pair.1 == .string name).map Prod.snd

end Value

end Stencil.Yaml
