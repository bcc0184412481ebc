import Stencil.Failure
import Stencil.Proofs.Operation.Document

/-!
# Operations as documents

The document of an operation holds each of its fields as a text, a list of texts or a mapping of
texts; what the operation does not have is left out. A valid operation is read back from its
document, whatever the order of the fields (`read_documentOf`). Together with the last module, this
is all there is to reading a document (`read_ok_iff_isDocument`).
-/

namespace Stencil

namespace Operation

/-! ## The document of an operation -/

def textsValue (texts : List String) : Yaml.Value :=
  .sequence (texts.map .string)

def entriesValue (entries : Entries String String) : Yaml.Value :=
  .mapping (entries.toList.map fun entry => (.string entry.1, .string entry.2))

/-- A field that is left out without a text. -/
def optionalField (key : String) (text? : Option String) : List (String × Yaml.Value) :=
  text?.toList.map fun text => (key, .string text)

/-- The type of operation that does this. -/
def Kind.category : Kind → Category
  | .group .. => .group
  | .selection .. => .selection
  | .sequence .. => .sequence
  | .template .. => .template

/-- The fields of what an operation does. -/
def Kind.fields : Kind → List (String × Yaml.Value)
  | .group operations => [("operations", textsValue operations)]
  | .selection input options default =>
    [("input", .string input), ("options", entriesValue options)] ++
      optionalField "default" default
  | .sequence input operations placeholder fallback =>
    [("input", .string input), ("operations", textsValue operations),
      ("placeholder", .string placeholder)] ++ optionalField "fallback" fallback
  | .template file placeholders fallback modifiers =>
    [("file", .string file), ("modifiers", textsValue (modifiers.map Modifier.name)),
      ("placeholders", textsValue placeholders)] ++ optionalField "fallback" fallback

def fields (operation : Operation) : List (String × Yaml.Value) :=
  [("identifier", .string operation.identifier),
    ("type", .string operation.kind.category.name)] ++
    optionalField "condition" (operation.condition.map Condition.source) ++ operation.kind.fields

/-- The fields with their keys as values. -/
def keyed (fields : List (String × Yaml.Value)) : List (Yaml.Value × Yaml.Value) :=
  fields.map fun field => (.string field.1, field.2)

def documentOf (fields : List (String × Yaml.Value)) : Yaml.Value :=
  .mapping (keyed fields)

/-! ## Fields of the document -/

theorem nodup_keyed {fields : List (String × Yaml.Value)} (h : (fields.map Prod.fst).Nodup) :
    ((keyed fields).map Prod.fst).Nodup := by
  rw [keyed, List.map_map, List.Nodup, List.pairwise_map]
  apply (List.pairwise_map.1 h).imp
  intro a b hne heq
  exact hne (Yaml.Value.string.inj heq)

theorem nodup_keys (operation : Operation) : (operation.fields.map Prod.fst).Nodup := by
  obtain ⟨identifier, condition, kind⟩ := operation
  cases kind with
  | group operations =>
    cases condition <;> simp [fields, Kind.fields, optionalField]
  | selection input options default =>
    cases condition <;> cases default <;> simp [fields, Kind.fields, optionalField]
  | sequence input operations placeholder fallback =>
    cases condition <;> cases fallback <;> simp [fields, Kind.fields, optionalField]
  | template file placeholders fallback modifiers =>
    cases condition <;> cases fallback <;> simp [fields, Kind.fields, optionalField]

theorem keys_subset (operation : Operation) :
    operation.fields.map Prod.fst ⊆ operation.kind.category.keys := by
  obtain ⟨identifier, condition, kind⟩ := operation
  cases kind with
  | group operations =>
    cases condition <;> simp [fields, Kind.fields, optionalField, Kind.category, Category.keys]
  | selection input options default =>
    cases condition <;> cases default <;>
      simp [fields, Kind.fields, optionalField, Kind.category, Category.keys]
  | sequence input operations placeholder fallback =>
    cases condition <;> cases fallback <;>
      simp [fields, Kind.fields, optionalField, Kind.category, Category.keys]
  | template file placeholders fallback modifiers =>
    cases condition <;> cases fallback <;>
      simp [fields, Kind.fields, optionalField, Kind.category, Category.keys]

theorem texts?_textsValue (texts : List String) : (textsValue texts).texts? = some texts := by
  rw [textsValue, Yaml.Value.texts?, mapM_eq_some_iff, List.map_map]
  rfl

theorem entries?_entriesValue (entries : Entries String String) :
    (entriesValue entries).entries? = some entries := by
  have htexts : (entries.toList.map fun entry =>
      (Yaml.Value.string entry.1, Yaml.Value.string entry.2)).mapM Yaml.Value.pairTexts? =
        some entries.toList := by
    rw [mapM_eq_some_iff, List.map_map]
    rfl
  rw [entriesValue, Yaml.Value.entries?, htexts, Option.map_some, Entries.ofList_toList]

namespace Document

variable {document : Document} {field : String}

theorem text?_of_given? {text? : Option String}
    (h : Yaml.Value.given? document.fields field = text?.map .string) :
    document.text? field = .ok text? := by
  rw [text?_eq_ok_iff, h]
  cases text? <;> rfl

theorem identifier?_of_given? {text? : Option String}
    (h : Yaml.Value.given? document.fields field = text?.map .string) (hne : text? ≠ some "") :
    document.identifier? field = .ok text? := by
  rw [identifier?, text?_of_given? h]
  cases text? with
  | none => rfl
  | some text =>
    have hne : decide (text ≠ "") = true := decide_eq_true fun h => hne (congrArg some h)
    exact congrArg Except.ok (Option.filter_some_pos hne)

theorem requiredText_of_given? {text : String}
    (h : Yaml.Value.given? document.fields field = some (.string text)) (hne : text ≠ "") :
    document.requiredText field = .ok text := by
  rw [requiredText_eq_ok_iff, Yaml.Value.textOf?, h]
  exact ⟨rfl, hne⟩

theorem texts_of_given? {texts : List String}
    (h : Yaml.Value.given? document.fields field = some (textsValue texts)) :
    document.texts field = .ok texts := by
  rw [texts_eq_ok_iff, h]
  exact ⟨some texts, congrArg some (texts?_textsValue texts), rfl⟩

theorem requiredTexts_of_given? {texts : List String}
    (h : Yaml.Value.given? document.fields field = some (textsValue texts)) (hne : texts ≠ []) :
    document.requiredTexts field = .ok texts := by
  rw [requiredTexts_eq_ok_iff, h]
  exact ⟨texts?_textsValue texts, hne⟩

theorem entries_of_given? {entries : Entries String String}
    (h : Yaml.Value.given? document.fields field = some (entriesValue entries)) :
    document.entries field = .ok entries := by
  rw [entries_eq_ok_iff, h]
  exact ⟨some entries, congrArg some (entries?_entriesValue entries), rfl⟩

end Document

/-! ## Reading back -/

section readBack

variable {operation : Operation} {fields : List (String × Yaml.Value)}

theorem given?_keyed (hperm : fields.Perm operation.fields) (key : String) :
    Yaml.Value.given? (keyed fields) key = Yaml.Value.given? (keyed operation.fields) key := by
  have hkeyed : (keyed fields).Perm (keyed operation.fields) := hperm.map _
  rw [Yaml.Value.given?, Yaml.Value.field?_of_perm hkeyed (nodup_keyed operation.nodup_keys)]
  rfl

theorem readKind_of_perm (hperm : fields.Perm operation.fields) (hvalid : operation.kind.Valid)
    (identifier : String) :
    readKind { identifier, fields := keyed fields } operation.kind.category =
      .ok (operation.kind.withModifiers []) := by
  have hgiven := given?_keyed hperm
  obtain ⟨name, condition, kind⟩ := operation
  cases kind with
  | group operations =>
    have hoperations : Yaml.Value.given? (keyed fields) "operations" =
        some (textsValue operations) := by
      rw [hgiven]
      cases condition <;> rfl
    exact readKind_group_eq_ok_iff.2
      ⟨operations, Document.requiredTexts_of_given? hoperations hvalid, rfl⟩
  | selection input options default =>
    obtain ⟨hinputNe, hfull, hdefaultNe⟩ := hvalid
    have hinput : Yaml.Value.given? (keyed fields) "input" = some (.string input) := by
      rw [hgiven]
      cases condition <;> rfl
    have hoptions : Yaml.Value.given? (keyed fields) "options" = some (entriesValue options) := by
      rw [hgiven]
      cases condition <;> rfl
    have hdefault : Yaml.Value.given? (keyed fields) "default" = default.map .string := by
      rw [hgiven]
      cases condition <;> cases default <;> rfl
    exact readKind_selection_eq_ok_iff.2 ⟨input, options, default,
      Document.requiredText_of_given? hinput hinputNe, Document.entries_of_given? hoptions, hfull,
      Document.identifier?_of_given? hdefault hdefaultNe, rfl⟩
  | sequence input operations placeholder fallback =>
    obtain ⟨hinputNe, hoperationsNe, hplaceholderNe, hfallbackNe⟩ := hvalid
    have hinput : Yaml.Value.given? (keyed fields) "input" = some (.string input) := by
      rw [hgiven]
      cases condition <;> rfl
    have hoperations : Yaml.Value.given? (keyed fields) "operations" =
        some (textsValue operations) := by
      rw [hgiven]
      cases condition <;> rfl
    have hplaceholder : Yaml.Value.given? (keyed fields) "placeholder" =
        some (.string placeholder) := by
      rw [hgiven]
      cases condition <;> rfl
    have hfallback : Yaml.Value.given? (keyed fields) "fallback" = fallback.map .string := by
      rw [hgiven]
      cases condition <;> cases fallback <;> rfl
    exact readKind_sequence_eq_ok_iff.2 ⟨input, operations, placeholder, fallback,
      Document.requiredText_of_given? hinput hinputNe,
      Document.requiredTexts_of_given? hoperations hoperationsNe,
      Document.requiredText_of_given? hplaceholder hplaceholderNe,
      Document.identifier?_of_given? hfallback hfallbackNe, rfl⟩
  | template file placeholders fallback modifiers =>
    obtain ⟨hfileNe, hfallbackNe⟩ := hvalid
    have hfile : Yaml.Value.given? (keyed fields) "file" = some (.string file) := by
      rw [hgiven]
      cases condition <;> rfl
    have hplaceholders : Yaml.Value.given? (keyed fields) "placeholders" =
        some (textsValue placeholders) := by
      rw [hgiven]
      cases condition <;> rfl
    have hfallback : Yaml.Value.given? (keyed fields) "fallback" = fallback.map .string := by
      rw [hgiven]
      cases condition <;> cases fallback <;> rfl
    exact readKind_template_eq_ok_iff.2 ⟨file, placeholders, fallback,
      Document.requiredText_of_given? hfile hfileNe, Document.texts_of_given? hplaceholders,
      Document.identifier?_of_given? hfallback hfallbackNe, rfl⟩

theorem texts_modifiers_of_perm (hperm : fields.Perm operation.fields) (identifier : String) :
    Document.texts { identifier, fields := keyed fields } "modifiers" =
      .ok (operation.kind.modifiers.map Modifier.name) := by
  have hgiven := given?_keyed hperm "modifiers"
  obtain ⟨name, condition, kind⟩ := operation
  have hnone (h : Yaml.Value.given? (keyed fields) "modifiers" = none) :
      Document.texts { identifier, fields := keyed fields } "modifiers" = .ok [] := by
    rw [Document.texts_eq_ok_iff, h]
    exact ⟨none, rfl, rfl⟩
  cases kind with
  | group operations =>
    apply hnone
    rw [hgiven]
    cases condition <;> rfl
  | selection input options default =>
    apply hnone
    rw [hgiven]
    cases condition <;> cases default <;> rfl
  | sequence input operations placeholder fallback =>
    apply hnone
    rw [hgiven]
    cases condition <;> cases fallback <;> rfl
  | template file placeholders fallback modifiers =>
    apply Document.texts_of_given?
    rw [hgiven]
    cases condition <;> rfl

theorem readCondition_of_perm (hperm : fields.Perm operation.fields) (hvalid : operation.Valid)
    (identifier : String) :
    readCondition { identifier, fields := keyed fields } = .ok operation.condition := by
  have hsource : Yaml.Value.given? (keyed fields) "condition" =
      (operation.condition.map Condition.source).map .string := by
    rw [given?_keyed hperm]
    obtain ⟨name, condition | condition, kind⟩ := operation
    · cases kind with
      | group operations => rfl
      | selection input options default => cases default <;> rfl
      | sequence input operations placeholder fallback => cases fallback <;> rfl
      | template file placeholders fallback modifiers => cases fallback <;> rfl
    · rfl
  refine readCondition_eq_ok_iff.2 ⟨_, Document.text?_of_given? hsource, ?_⟩
  cases hcondition : operation.condition with
  | none => rfl
  | some condition => exact congrArg some (hvalid.condition condition hcondition)

theorem read_documentOf (hperm : fields.Perm operation.fields) (hvalid : operation.Valid) :
    read (documentOf fields) = .ok operation := by
  have hkeys : ((keyed fields).mapM fun field => field.1.keyText?) =
      some (fields.map Prod.fst) := by
    rw [mapM_eq_some_iff, keyed, List.map_map, List.map_map]
    rfl
  have hcategoryKeys : ∀ key ∈ fields.map Prod.fst, key ∈ operation.kind.category.keys := by
    intro key hkey
    exact operation.keys_subset ((hperm.map Prod.fst).mem_iff.1 hkey)
  have hidentifier : Yaml.Value.given? (keyed fields) "identifier" =
      some (.string operation.identifier) := by
    rw [given?_keyed hperm]
    rfl
  have htype : Yaml.Value.given? (keyed fields) "type" =
      some (.string operation.kind.category.name) := by
    rw [given?_keyed hperm]
    rfl
  have hkept : (operation.kind.withModifiers []).withModifiers operation.kind.modifiers =
      operation.kind := by
    cases operation.kind <;> rfl
  -- The modifiers are read apart from the rest of what the operation does.
  have hdocument : readDocument { identifier := operation.identifier, fields := keyed fields }
      (fields.map Prod.fst) = .ok operation := by
    refine readDocument_eq_ok_iff.2 ⟨operation.kind.category, _, operation.condition, _,
      operation.kind.modifiers, ?_, hcategoryKeys, readKind_of_perm hperm hvalid.kind _,
      readCondition_of_perm hperm hvalid _, texts_modifiers_of_perm hperm _,
      readModifiers_eq_ok_iff.2 rfl, ?_⟩
    · rw [readCategory_eq_ok_iff, Yaml.Value.textOf?, htype]
      rfl
    · rw [hkept]
  refine read_eq_ok_iff.2 ⟨keyed fields, fields.map Prod.fst, operation.identifier, rfl, hkeys,
    ?_, ?_, hvalid.identifier, hdocument⟩
  · intro key hkey
    exact Category.mem_supportedKeys (hcategoryKeys key hkey)
  · rw [Yaml.Value.textOf?, hidentifier]
    rfl

end readBack

/-! ## All there is to reading a document -/

/-- Of the values without tags, exactly the documents are read, and any other is a configuration
error. Whatever is read is valid and has all modifiers that are listed, which only templates have. A
valid operation is read back from the document of its fields, in any order. -/
theorem read_ok_iff_isDocument :
    (∀ value : Yaml.Value, value.Untagged →
      ((∃ operation, read value = .ok operation) ↔ IsDocument value) ∧
        (¬ IsDocument value → ∃ fault, read value = .error fault ∧
          (Failure.operations (.document fault)).message = Message.configuration fault.message)) ∧
    (∀ value operation, read value = .ok operation → operation.Valid ∧
      ∃ fields, value = .mapping fields ∧
        Yaml.Value.listed fields "modifiers" = operation.kind.modifiers.map Modifier.name ∧
        (operation.kind.modifiers ≠ [] → operation.kind.category = .template)) ∧
    ∀ operation : Operation, operation.Valid → ∀ fields : List (String × Yaml.Value),
      fields.Perm operation.fields → read (documentOf fields) = .ok operation := by
  refine ⟨?_, ?_, ?_⟩
  · intro value huntagged
    refine ⟨exists_read_iff huntagged, ?_⟩
    intro hnot
    cases hread : read value with
    | ok operation => exact absurd (isDocument_of_read huntagged hread) hnot
    | error fault => exact ⟨fault, rfl, rfl⟩
  · intro value operation hread
    obtain ⟨fields, -, -, rfl, -⟩ := read_eq_ok_iff.1 hread
    refine ⟨valid_of_read hread, fields, rfl, listed_modifiers_of_read hread, ?_⟩
    intro hmodifiers
    cases hkind : operation.kind with
    | template => rfl
    | _ => simp [hkind, Kind.modifiers] at hmodifiers
  · intro operation hvalid fields hperm
    exact read_documentOf hperm hvalid

/-- A document with a number for its identifier and a null, and a value that is no mapping. -/
theorem read_ok_iff_isDocument_template :
    let operation : Operation := {
      identifier := "7"
      condition := some ⟨"a == 1", .compare .equal (.name ["a"]) (.literal (.integer 1))⟩
      kind := .template "x.h" [] none [.sortLines] }
    let value : Yaml.Value := .mapping
      [(.string "type", .string "template"), (.string "identifier", .number (.integer 7)),
        (.string "condition", .string "a == 1"), (.string "placeholders", .null),
        (.string "modifiers", .sequence [.string "sort_lines"]), (.string "file", .string "x.h")]
    IsDocument value ∧ operation.Valid ∧
      read (documentOf operation.fields.reverse) = .ok operation ∧
      ∃ fault, read (.sequence [value]) = .error fault := by
  intro operation value
  have hlist : (Yaml.Value.sequence [.string "sort_lines"]).Untagged :=
    .sequence (List.forall_mem_singleton.2 (.string "sort_lines"))
  have huntagged : value.Untagged := by
    apply Yaml.Value.Untagged.mapping <;>
      simp only [List.forall_mem_cons, List.not_mem_nil, false_implies, implies_true, and_true]
    · exact ⟨.string _, .string _, .string _, .string _, .string _, .string _⟩
    · exact ⟨.string _, .number _, .string _, .null, hlist, .string _⟩
  have hread : read value = .ok operation := by with_unfolding_all rfl
  have hvalid := (read_ok_iff_isDocument.2.1 value operation hread).1
  refine ⟨((read_ok_iff_isDocument.1 value huntagged).1).1 ⟨operation, hread⟩, hvalid,
    read_ok_iff_isDocument.2.2 operation hvalid _ (List.reverse_perm _), ?_⟩
  have hnot : ¬ IsDocument (.sequence [value]) := by
    rintro ⟨fields, category, heq, -⟩
    cases heq
  obtain ⟨fault, hfault, -⟩ := (read_ok_iff_isDocument.1 (.sequence [value])
    (.sequence (List.forall_mem_singleton.2 huntagged))).2 hnot
  exact ⟨fault, hfault⟩

end Operation

end Stencil
