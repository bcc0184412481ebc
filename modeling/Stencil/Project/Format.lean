import Stencil.Json.Reader
import Stencil.Yaml.Value

/-!
# Formats of descriptions

A description can be read in any format that has texts, numbers, lists and records. Two formats are
given: JSON, which tells these apart by how they are written, and YAML, in which the place of a
scalar says what it is.

Main statement: the fields that are read have names that were asked for (`mem_of_mem_fields?`).
-/

namespace Stencil

/-- The fields of a record, by name or in order. -/
inductive Fields (α : Type) where
  | named (fields : List (String × α))
  | listed (values : List α)

/-- How texts, numbers, lists and records are read. -/
structure Format (α : Type) where
  /-- The text that something is. -/
  text? : α → Option String
  /-- The number of 32 bits that something is. -/
  number? : α → Option Nat
  /-- The items of a list. -/
  items? : α → Option (List α)
  /-- The fields of a record. -/
  record? : α → Option (Fields α)
  /-- Whether something stands for nothing; none if that cannot be said. -/
  isAbsent? : α → Option Bool

namespace Format

/-- How many numbers there are of 32 bits. -/
def numberBound : Nat := 0x100000000

/-- The fields of a record by their names. Each name has to be one of `names` and is there once; the
fields of a list are those of the names in order, of which the last ones may be missing. -/
def fields? (format : Format α) (names : List String) (a : α) : Option (List (String × α)) :=
  match format.record? a with
  | some (.named fields) =>
    if fields.all (fun field => names.contains field.1) && decide (fields.map Prod.fst).Nodup then
      some fields
    else none
  | some (.listed values) =>
    if values.length ≤ names.length then some (names.zip values) else none
  | none => none

/-- What is read from the field of a name; the default if there is no such field. -/
def field (read : α → Option β) (default : β) (fields : List (String × α)) (name : String) :
    Option β :=
  match fields.lookup name with
  | some value => read value
  | none => some default

/-- The text of a field, which is empty if there is none. -/
def text (format : Format α) : List (String × α) → String → Option String :=
  field format.text? ""

/-- The texts of a field, which are none if there is none. -/
def texts (format : Format α) : List (String × α) → String → Option (List String) :=
  field (fun a => (format.items? a).bind fun items => items.mapM format.text?) []

/-- What is read, unless it stands for nothing. -/
def optional (format : Format α) (read : α → Option β) (a : α) : Option (Option β) := do
  if ← format.isAbsent? a then some none else (read a).map some

theorem mem_of_mem_fields? {format : Format α} {names : List String} {a : α}
    {fields : List (String × α)} (h : format.fields? names a = some fields) {field : String × α}
    (hmem : field ∈ fields) : field.1 ∈ names := by
  unfold fields? at h
  split at h
  · split at h
    · next hall =>
      cases h
      simp only [Bool.and_eq_true, List.all_eq_true] at hall
      simpa using hall.1 field hmem
    · cases h
  · split at h
    · cases h
      exact (List.of_mem_zip hmem).1
    · cases h
  · cases h

/-- Descriptions in JSON. A record may be written as an object or an array. -/
def json : Format Json where
  text?
    | .string text => some text
    | _ => none
  number?
    | .number (.integer n) => if 0 ≤ n ∧ n < numberBound then some n.toNat else none
    | _ => none
  items?
    | .array items => some items
    | _ => none
  record?
    | .object fields => some (.named fields)
    | .array items => some (.listed items)
    | _ => none
  isAbsent?
    | .null => some true
    | _ => some false

end Format

namespace Yaml

/-- The tag of null. -/
def nullTag : String := "tag:yaml.org,2002:null"

/-- The tag of integers. -/
def integerTag : String := "tag:yaml.org,2002:int"

/-- Whether a scalar stands for nothing. One with the tag of null has to be a text of null. -/
def Scalar.isAbsent? (scalar : Scalar) : Option Bool :=
  if scalar.style ≠ .plain then some false
  else
    match scalar.tag with
    | none => some (scalar.text = "" || Meaning.nullTexts.contains scalar.text)
    | some tag =>
      if tag ≠ nullTag then some false
      else if Meaning.nullTexts.contains scalar.text then some true
      else none

/-- The number of 32 bits that a scalar is, if it is plain, or literal with the tag of integers. -/
def Scalar.number? (scalar : Scalar) : Option Nat :=
  if scalar.style = .plain || (scalar.style = .literal && scalar.tag = some integerTag) then
    (Number.unsignedInteger? Number.bound64 scalar.text.toList).filter (· < Format.numberBound)
  else none

namespace Node

/-- The text of a scalar, as it is written. -/
def text? : Node → Option String
  | .scalar s => some s.text
  | _ => none

/-- Whether nothing is written. -/
def isEmpty : Node → Bool
  | .scalar s => s.style = .plain && s.text = ""
  | _ => false

/-- The pairs of a mapping by the texts of their keys. -/
def namedPairs? : List (Node × Node) → Option (List (String × Node))
  | [] => some []
  | (key, value) :: pairs => do
    let name ← key.text?
    let pairs ← namedPairs? pairs
    some ((name, value) :: pairs)

end Node

end Yaml

/-- Descriptions in YAML. Any scalar is a text; where nothing is written there is no item and no
field. -/
def Format.yaml : Format Yaml.Node where
  text? := Yaml.Node.text?
  number?
    | .scalar scalar => scalar.number?
    | _ => none
  items?
    | .sequence _ items => some items
    | node => if node.isEmpty then some [] else none
  record?
    | .mapping _ pairs => (Yaml.Node.namedPairs? pairs).map .named
    | .sequence _ items => some (.listed items)
    | node => if node.isEmpty then some (.named []) else none
  isAbsent?
    | .scalar scalar => scalar.isAbsent?
    | _ => some false

end Stencil
