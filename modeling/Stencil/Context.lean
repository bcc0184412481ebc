import Stencil.Project.Format
import Stencil.Scopes
import Stencil.Text.Blank

/-!
# Contexts

A context gives values to names. It is written as a mapping in JSON or YAML; a definition gives a
text to one name.

Main statement: a text is cut at its first equals sign (`splitAtEquals?_eq_some`).
-/

namespace Stencil

namespace Context

/-- The value of what a scalar in YAML says. Infinity, and the number that is none, are null. -/
def ofMeaning : Yaml.Meaning → Value
  | .null => .null
  | .bool value => .bool value
  | .number (.integer value) => .number (.integer value)
  | .number (.double value) => .number (.double value)
  | .number _ => .null
  | .string text => .string text

mutual

/-- The value of a node. There is none for a tag of one's own. -/
def ofNode? : Yaml.Node → Option Value
  | .scalar scalar =>
    if (Yaml.ownTag? scalar.tag).isSome then none
    else (Yaml.Meaning.ofScalar? scalar).map ofMeaning
  | .sequence tag items =>
    if (Yaml.ownTag? tag).isSome then none else (ofItems? items).map .array
  | .mapping tag pairs =>
    if (Yaml.ownTag? tag).isSome then none else (ofPairs? pairs).map Value.ofFields

/-- The values of items. -/
def ofItems? : List Yaml.Node → Option (List Value)
  | [] => some []
  | item :: items => do
    let item ← ofNode? item
    let items ← ofItems? items
    some (item :: items)

/-- The values of pairs by the texts of their keys. -/
def ofPairs? : List (Yaml.Node × Yaml.Node) → Option (List (String × Value))
  | [] => some []
  | (key, value) :: pairs => do
    let name ← key.text?
    let value ← ofNode? value
    let pairs ← ofPairs? pairs
    some ((name, value) :: pairs)

end

/-- The context that a text in JSON is. -/
def ofJson? (text : String) : Option Scope :=
  match Json.parse? text with
  | some (.object fields) => some (.ofList (Json.toFields fields))
  | _ => none

/-- The context that a text in YAML is. -/
def ofYaml? (text : String) : Option Scope := do
  match ← Yaml.Node.ofText? text with
  | .mapping _ pairs => (ofPairs? pairs).map .ofList
  | node => if node.isEmpty then some .empty else none

/-- The context that a text is: in JSON, or else in YAML. A blank text gives no values. -/
def ofText? (text : String) : Option Scope :=
  if Text.isBlankText text.toList then some .empty else (ofJson? text).or (ofYaml? text)

/-- The text before the first equals sign and the text behind it. -/
def splitAtEquals? : List Char → Option (List Char × List Char)
  | [] => none
  | c :: rest =>
    if c = '=' then some ([], rest)
    else (splitAtEquals? rest).map fun (before, behind) => (c :: before, behind)

/-- The name and the text of a definition. Blanks around the name do not belong to it. -/
def definition? (text : String) : Option (String × String) :=
  match splitAtEquals? text.toList with
  | some (name, value) =>
    if Text.isBlankText name then none
    else some (String.ofList (Text.trim name), String.ofList value)
  | none => none

theorem splitAtEquals?_eq_some {text before behind : List Char} :
    splitAtEquals? text = some (before, behind) ↔
      text = before ++ '=' :: behind ∧ '=' ∉ before := by
  induction text generalizing before with
  | nil => simp [splitAtEquals?]
  | cons c rest ih =>
    by_cases hc : c = '='
    · subst hc
      cases before with
      | nil => simp [splitAtEquals?]
      | cons d before =>
        simp only [splitAtEquals?, if_true, Option.some.injEq, Prod.mk.injEq, List.cons_append,
          List.cons.injEq, List.mem_cons, not_or]
        constructor
        · rintro ⟨h, -⟩
          cases h
        · rintro ⟨⟨h, -⟩, hne, -⟩
          exact absurd h hne
    · simp only [splitAtEquals?, hc, if_false, Option.map_eq_some_iff, Prod.exists]
      constructor
      · rintro ⟨b, r, h, heq⟩
        cases heq
        obtain ⟨rfl, hmem⟩ := ih.1 h
        exact ⟨rfl, by simpa [Ne.symm hc] using hmem⟩
      · rintro ⟨h, hmem⟩
        cases before with
        | nil => exact absurd (List.cons.inj h).1 hc
        | cons d before =>
          obtain ⟨rfl, rfl⟩ := List.cons.inj h
          exact ⟨before, behind, ih.2 ⟨rfl, fun h => hmem (List.mem_cons_of_mem _ h)⟩, rfl⟩

end Context

end Stencil
