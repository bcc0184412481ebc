import Stencil.OperationSet
import Stencil.Sorting
import Stencil.Yaml.Value

/-!
# Documents of operations

A document describes an operation by the values of keys: its identifier, its type, what the type
needs, and perhaps a condition. A number or truth value counts as its text; a null counts as
nothing. A document is refused by the first of its faults, in the order of `read`.
-/

namespace Stencil.Operation

/-- Why a document describes no operation. -/
inductive DocumentFault where
  /-- The document is empty. -/
  | missingValues
  /-- The document is no mapping. -/
  | invalidValues
  /-- A key is no text. -/
  | invalidKey
  /-- No operation has the keys. -/
  | undefinedKeys (keys : List String)
  | missingIdentifier
  | missingType
  /-- No type of operation has the name. -/
  | unsupportedType (name : String)
  /-- The type of the operation does not have the keys. -/
  | unsupportedKeys (identifier : String) (keys : List String)
  /-- The value of a field is of another kind. -/
  | invalidField (field identifier : String)
  /-- A field has no value, or an empty one. -/
  | missingField (field identifier : String)
  /-- The condition cannot be read. -/
  | condition (fault : Condition.SyntaxFault) (identifier : String)
  /-- No modifier has the name. -/
  | unsupportedModifier (name identifier : String)
  deriving DecidableEq, Repr

/-- What is wrong with the text of a condition, in words. -/
def conditionMessage (fault : Condition.SyntaxFault) : String :=
  "invalid condition: " ++ fault.message

/-- What is wrong with the name of a modifier, in words. -/
def modifierMessage (name : String) : String :=
  "unsupported modifier: " ++ name

/-- Why a document describes no operation, in words. -/
def DocumentFault.message : DocumentFault → String
  | .missingValues => "missing operation values"
  | .invalidValues => "invalid operation values"
  | .invalidKey => "invalid operation key"
  | .undefinedKeys keys => "undefined keys: " ++ ", ".intercalate keys
  | .missingIdentifier => "missing identifier"
  | .missingType => "missing type"
  | .unsupportedType name => "unsupported type: " ++ name
  | .unsupportedKeys identifier keys =>
    "unsupported keys for " ++ identifier ++ ": " ++ ", ".intercalate keys
  | .invalidField field identifier => "invalid " ++ field ++ " in " ++ identifier
  | .missingField field identifier => "missing " ++ field ++ " in " ++ identifier
  | .condition fault identifier => conditionMessage fault ++ " in " ++ identifier
  | .unsupportedModifier name identifier => modifierMessage name ++ " in " ++ identifier

/-- A document that has an identifier. -/
structure Document where
  identifier : String
  fields : List (Yaml.Value × Yaml.Value)

namespace Document

/-- The text of a field; nothing if the field is not there or null. -/
def text? (document : Document) (field : String) : Except DocumentFault (Option String) :=
  match Yaml.Value.field? document.fields field with
  | none | some .null => .ok none
  | some value =>
    match value.text? with
    | some text => .ok (some text)
    | none => .error (.invalidField field document.identifier)

/-- The texts of a list. -/
def texts (document : Document) (field : String) : Except DocumentFault (List String) :=
  match Yaml.Value.field? document.fields field with
  | none | some .null => .ok []
  | some (.sequence items) =>
    match items.mapM Yaml.Value.text? with
    | some texts => .ok texts
    | none => .error (.invalidField field document.identifier)
  | some _ => .error (.invalidField field document.identifier)

/-- The texts of the keys and values of a mapping. -/
def entries (document : Document) (field : String) :
    Except DocumentFault (Entries String String) :=
  match Yaml.Value.field? document.fields field with
  | none | some .null => .ok .empty
  | some (.mapping pairs) =>
    let texts? := pairs.mapM fun (key, value) => do
      let key ← key.text?
      let value ← value.text?
      return (key, value)
    match texts? with
    | some texts => .ok (.ofList texts)
    | none => .error (.invalidField field document.identifier)
  | some _ => .error (.invalidField field document.identifier)

/-- The text of a field that has to be there. -/
def requiredText (document : Document) (field : String) : Except DocumentFault String := do
  match ← document.text? field with
  | some text =>
    if text = "" then throw (.missingField field document.identifier) else return text
  | none => throw (.missingField field document.identifier)

/-- The texts of a list that has to be there. -/
def requiredTexts (document : Document) (field : String) :
    Except DocumentFault (List String) := do
  let texts ← document.texts field
  if texts.isEmpty then throw (.missingField field document.identifier) else return texts

/-- The identifier that a field names, if it names one. -/
def identifier? (document : Document) (field : String) :
    Except DocumentFault (Option String) := do
  let text ← document.text? field
  return text.filter (· ≠ "")

end Document

/-- The types of operations. -/
inductive Category where
  | group
  | selection
  | sequence
  | template
  deriving DecidableEq, Repr

namespace Category

/-- The type of a name. -/
def ofName? (name : String) : Option Category :=
  [("group", .group), ("selection", .selection), ("sequence", .sequence),
    ("template", .template)].lookup name

/-- The keys of documents of operations of a type. -/
def keys : Category → List String
  | .group => ["condition", "identifier", "operations", "type"]
  | .selection => ["condition", "default", "identifier", "input", "options", "type"]
  | .sequence =>
    ["condition", "fallback", "identifier", "input", "operations", "placeholder", "type"]
  | .template =>
    ["condition", "fallback", "file", "identifier", "modifiers", "placeholders", "type"]

end Category

/-- The keys of documents of operations of any type. -/
def supportedKeys : List String :=
  ["condition", "default", "fallback", "file", "identifier", "input", "modifiers", "operations",
    "options", "placeholder", "placeholders", "type"]

/-- Texts in the order of their characters. -/
def sortedTexts (texts : List String) : List String :=
  stableSort (fun a b => !decide (b < a)) texts

/-- What an operation of a type does; its modifiers are read later. -/
def readKind (document : Document) : Category → Except DocumentFault Kind
  | .group => do
    let operations ← document.requiredTexts "operations"
    return .group operations
  | .selection => do
    let input ← document.requiredText "input"
    let options ← document.entries "options"
    if options.isEmpty then throw (.missingField "options" document.identifier)
    else
      let default ← document.identifier? "default"
      return .selection input options default
  | .sequence => do
    let input ← document.requiredText "input"
    let operations ← document.requiredTexts "operations"
    let placeholder ← document.requiredText "placeholder"
    let fallback ← document.identifier? "fallback"
    return .sequence input operations placeholder fallback
  | .template => do
    let file ← document.requiredText "file"
    let placeholders ← document.texts "placeholders"
    let fallback ← document.identifier? "fallback"
    return .template file placeholders fallback []

/-- The condition of an operation. -/
def readCondition (document : Document) : Except DocumentFault (Option Condition) := do
  match ← document.text? "condition" with
  | none => return none
  | some source =>
    match Condition.parse source with
    | .ok condition => return some condition
    | .error fault => throw (.condition fault document.identifier)

/-- The modifiers of the names. -/
def readModifiers (identifier : String) : List String → Except DocumentFault (List Modifier)
  | [] => .ok []
  | name :: names =>
    match Modifier.ofName? name with
    | some modifier => (readModifiers identifier names).map (modifier :: ·)
    | none => .error (.unsupportedModifier name identifier)

/-- What an operation does, with its modifiers, if it is a template. -/
def Kind.withModifiers (modifiers : List Modifier) : Kind → Kind
  | .template file placeholders fallback _ => .template file placeholders fallback modifiers
  | kind => kind

/-- The type of operation that a document is of. -/
def readCategory (document : Document) : Except DocumentFault Category := do
  match ← document.text? "type" with
  | none => throw .missingType
  | some name =>
    if name = "" then throw .missingType
    else
      match Category.ofName? name with
      | some category => return category
      | none => throw (.unsupportedType name)

/-- The operation that a document with an identifier describes. -/
def readDocument (document : Document) (keys : List String) :
    Except DocumentFault Operation := do
  let category ← readCategory document
  let unsupported := keys.filter fun key => !category.keys.contains key
  if !unsupported.isEmpty then
    throw (.unsupportedKeys document.identifier (sortedTexts unsupported))
  else
    let kind ← readKind document category
    let condition ← readCondition document
    let names ← document.texts "modifiers"
    let modifiers ← readModifiers document.identifier names
    return { identifier := document.identifier, condition, kind := kind.withModifiers modifiers }

/-- The operation that a value describes. -/
def read (value : Yaml.Value) : Except DocumentFault Operation :=
  match value with
  | .null | .mapping [] => .error .missingValues
  | .mapping fields =>
    match fields.mapM fun field => field.1.keyText? with
    | none => .error .invalidKey
    | some keys =>
      let undefined := keys.filter fun key => !supportedKeys.contains key
      if !undefined.isEmpty then .error (.undefinedKeys (sortedTexts undefined))
      else
        match (Yaml.Value.field? fields "identifier").bind Yaml.Value.text? with
        | none => .error .missingIdentifier
        | some identifier =>
          if identifier = "" then .error .missingIdentifier
          else readDocument { identifier, fields } keys
  | _ => .error .invalidValues

end Stencil.Operation
