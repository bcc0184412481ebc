import Stencil.Proofs.Operation.Fields

/-!
# Documents that describe operations

A value describes an operation if it is a mapping with the right keys, fields and shapes
(`IsDocument`), and exactly then it is read. What is read is a valid operation, and a valid
operation is read back from the document that holds its fields.
-/

namespace Stencil

namespace Operation

/-! ## What documents and operations have to be -/

namespace Category

def name : Category → String
  | .group => "group"
  | .selection => "selection"
  | .sequence => "sequence"
  | .template => "template"

/-- The fields that have to be there, apart from the identifier and the type. -/
def required : Category → List String
  | .group => ["operations"]
  | .selection => ["input", "options"]
  | .sequence => ["input", "operations", "placeholder"]
  | .template => ["file"]

/-- The fields of what an operation does that need not be there. -/
def optional : Category → List String
  | .group => []
  | .selection => ["default"]
  | .sequence => ["fallback"]
  | .template => ["fallback", "placeholders"]

end Category

/-- What the value of a key is. -/
def shapeOf (key : String) : Shape :=
  if ["modifiers", "operations", "placeholders"].contains key then .texts
  else if key = "options" then .entries
  else .text

/-- The fields say what an operation of the type is. -/
structure ValidFields (fields : List (Yaml.Value × Yaml.Value)) (category : Category) : Prop where
  keys : ∀ field ∈ fields, ∃ key ∈ category.keys, field.1 = .string key
  identifier : ∃ text, Yaml.Value.textOf? fields "identifier" = some text ∧ text ≠ ""
  type : Yaml.Value.textOf? fields "type" = some category.name
  required : ∀ key ∈ category.required, ∃ value,
    Yaml.Value.given? fields key = some value ∧ value.isEmpty = false
  shapes : ∀ key value, Yaml.Value.given? fields key = some value → (shapeOf key).Fits value
  condition : ∀ source, Yaml.Value.textOf? fields "condition" = some source →
    ∃ condition, Condition.parse source = .ok condition
  modifiers : ∀ name ∈ Yaml.Value.listed fields "modifiers", ∃ modifier : Modifier,
    name = modifier.name

/-- The value is a mapping that says what an operation is. -/
def IsDocument (value : Yaml.Value) : Prop :=
  ∃ fields category, value = .mapping fields ∧ fields ≠ [] ∧ ValidFields fields category

/-- What an operation does is complete, and no name that may be left out is empty. -/
def Kind.Valid : Kind → Prop
  | .group operations => operations ≠ []
  | .selection input options default => input ≠ "" ∧ options.isEmpty = false ∧ default ≠ some ""
  | .sequence input operations placeholder fallback =>
    input ≠ "" ∧ operations ≠ [] ∧ placeholder ≠ "" ∧ fallback ≠ some ""
  | .template file _ fallback _ => file ≠ "" ∧ fallback ≠ some ""

end Operation

/-- The operation has an identifier, its condition is what the text of the condition says, and what
it does is valid. -/
structure Operation.Valid (operation : Operation) : Prop where
  identifier : operation.identifier ≠ ""
  condition : ∀ condition, operation.condition = some condition →
    Condition.parse condition.source = .ok condition
  kind : operation.kind.Valid

/-! ## Types, conditions and modifiers -/

theorem Modifier.ofName?_eq_some_iff {name : String} {modifier : Modifier} :
    Modifier.ofName? name = some modifier ↔ name = modifier.name := by
  cases modifier
  simp [Modifier.ofName?, Modifier.name]

namespace Operation

namespace Category

theorem ofName?_eq_some_iff {name : String} {category : Category} :
    ofName? name = some category ↔ name = category.name := by
  constructor
  · intro h
    obtain ⟨before, after, h, -⟩ := List.lookup_eq_some_iff.1 h
    have hmem : (name, category) ∈ before ++ (name, category) :: after :=
      List.mem_append_right before List.mem_cons_self
    rw [← h] at hmem
    simp only [List.mem_cons, Prod.mk.injEq, List.not_mem_nil, or_false] at hmem
    obtain ⟨rfl, rfl⟩ | ⟨rfl, rfl⟩ | ⟨rfl, rfl⟩ | ⟨rfl, rfl⟩ := hmem <;> rfl
  · rintro rfl
    cases category <;> rfl

theorem name_ne_empty (category : Category) : category.name ≠ "" := by
  cases category <;> decide

theorem mem_supportedKeys {category : Category} {key : String} (h : key ∈ category.keys) :
    key ∈ supportedKeys := by
  revert key
  cases category <;> decide

/-- Every key is one that any operation has, one of a template, or one of what the operation
does. -/
theorem mem_keys {category : Category} {key : String} (h : key ∈ category.keys) :
    key ∈ ["identifier", "type", "condition", "modifiers"] ∨ key ∈ category.required ∨
      key ∈ category.optional := by
  revert key
  cases category <;> decide

theorem eq_template_of_modifiers {category : Category} (h : "modifiers" ∈ category.keys) :
    category = .template := by
  revert h
  cases category <;> decide

end Category

variable {document : Document}

theorem readCategory_eq_ok_iff {category : Category} :
    readCategory document = .ok category ↔
      Yaml.Value.textOf? document.fields "type" = some category.name := by
  rw [readCategory, bind_eq_ok_iff]
  simp only [Document.text?_eq_ok_iff]
  constructor
  · rintro ⟨_ | name, hname, h⟩
    · cases h
    · obtain ⟨-, h⟩ := ite_throw_eq_ok_iff.1 h
      split at h
      · next hcategory =>
        cases h
        rw [← Category.ofName?_eq_some_iff.1 hcategory]
        exact Document.map_eq_some_iff_bind.1 hname
      · cases h
  · intro h
    refine ⟨some category.name, Document.map_eq_some_iff_bind.2 h, ?_⟩
    simp only [if_neg category.name_ne_empty, Category.ofName?_eq_some_iff.2 rfl]
    rfl

theorem readCondition_eq_ok_iff {condition : Option Condition} :
    readCondition document = .ok condition ↔
      ∃ source, document.text? "condition" = .ok source ∧
        source.map Condition.parse = condition.map .ok := by
  rw [readCondition, bind_eq_ok_iff]
  apply exists_congr
  intro source
  apply and_congr_right
  intro
  cases source with
  | none => cases condition <;> simp [pure, Except.pure]
  | some source =>
    cases hparse : Condition.parse source <;> cases condition <;>
      simp [hparse, pure, Except.pure, throw, throwThe, MonadExceptOf.throw]

theorem readModifiers_eq_ok_iff {identifier : String} {names : List String}
    {modifiers : List Modifier} :
    readModifiers identifier names = .ok modifiers ↔ names = modifiers.map Modifier.name := by
  induction names generalizing modifiers with
  | nil => cases modifiers <;> simp [readModifiers]
  | cons name names ih =>
    rw [readModifiers]
    constructor
    · intro h
      split at h
      · next modifier hmodifier =>
        obtain ⟨modifiers, hmodifiers, rfl⟩ := map_eq_ok_iff.1 h
        rw [List.map_cons, ih.1 hmodifiers, Modifier.ofName?_eq_some_iff.1 hmodifier]
      · cases h
    · intro h
      cases modifiers with
      | nil => cases h
      | cons modifier modifiers =>
        obtain ⟨hname, hnames⟩ := List.cons.inj h
        rw [Modifier.ofName?_eq_some_iff.2 hname]
        exact map_eq_ok_iff.2 ⟨modifiers, ih.2 hnames, rfl⟩

/-! ## What an operation does -/

theorem readKind_group_eq_ok_iff {kind : Kind} :
    readKind document .group = .ok kind ↔
      ∃ operations, document.requiredTexts "operations" = .ok operations ∧
        .group operations = kind := by
  simp only [readKind, bind_eq_ok_iff, pure, Except.pure, Except.ok.injEq]

theorem readKind_selection_eq_ok_iff {kind : Kind} :
    readKind document .selection = .ok kind ↔
      ∃ input options default, document.requiredText "input" = .ok input ∧
        document.entries "options" = .ok options ∧ options.isEmpty = false ∧
        document.identifier? "default" = .ok default ∧ .selection input options default = kind := by
  simp only [readKind, bind_eq_ok_iff, ite_throw_eq_ok_iff, pure, Except.pure, Except.ok.injEq,
    Bool.not_eq_true, exists_and_left]

theorem readKind_sequence_eq_ok_iff {kind : Kind} :
    readKind document .sequence = .ok kind ↔
      ∃ input operations placeholder fallback, document.requiredText "input" = .ok input ∧
        document.requiredTexts "operations" = .ok operations ∧
        document.requiredText "placeholder" = .ok placeholder ∧
        document.identifier? "fallback" = .ok fallback ∧
        .sequence input operations placeholder fallback = kind := by
  simp only [readKind, bind_eq_ok_iff, pure, Except.pure, Except.ok.injEq, exists_and_left]

theorem readKind_template_eq_ok_iff {kind : Kind} :
    readKind document .template = .ok kind ↔
      ∃ file placeholders fallback, document.requiredText "file" = .ok file ∧
        document.texts "placeholders" = .ok placeholders ∧
        document.identifier? "fallback" = .ok fallback ∧
        .template file placeholders fallback [] = kind := by
  simp only [readKind, bind_eq_ok_iff, pure, Except.pure, Except.ok.injEq, exists_and_left]

/-- What the type says about the fields makes what the operation does, no more and no less. -/
theorem exists_readKind_iff {category : Category} :
    (∃ kind, readKind document category = .ok kind) ↔
      (∀ key ∈ category.required, Document.Fills document.fields (shapeOf key) key) ∧
        ∀ key ∈ category.optional, Document.Fits document.fields (shapeOf key) key := by
  cases category with
  | group =>
    simp only [readKind_group_eq_ok_iff, Category.required, Category.optional,
      List.forall_mem_cons, List.not_mem_nil, false_implies, implies_true, and_true]
    rw [show shapeOf "operations" = .texts from rfl, ← Document.exists_requiredTexts_iff]
    constructor
    · rintro ⟨kind, operations, hoperations, rfl⟩
      exact ⟨operations, hoperations⟩
    · rintro ⟨operations, hoperations⟩
      exact ⟨_, operations, hoperations, rfl⟩
  | selection =>
    simp only [readKind_selection_eq_ok_iff, Category.required, Category.optional,
      List.forall_mem_cons, List.not_mem_nil, false_implies, implies_true, and_true]
    rw [show shapeOf "input" = .text from rfl, show shapeOf "options" = .entries from rfl,
      show shapeOf "default" = .text from rfl, ← Document.exists_requiredText_iff,
      ← Document.exists_entries_iff, ← Document.exists_identifier?_iff]
    constructor
    · rintro ⟨kind, input, options, default, hinput, hoptions, hfull, hdefault, rfl⟩
      exact ⟨⟨⟨input, hinput⟩, ⟨options, hoptions, hfull⟩⟩, ⟨default, hdefault⟩⟩
    · rintro ⟨⟨⟨input, hinput⟩, ⟨options, hoptions, hfull⟩⟩, ⟨default, hdefault⟩⟩
      exact ⟨_, input, options, default, hinput, hoptions, hfull, hdefault, rfl⟩
  | sequence =>
    simp only [readKind_sequence_eq_ok_iff, Category.required, Category.optional,
      List.forall_mem_cons, List.not_mem_nil, false_implies, implies_true, and_true]
    rw [show shapeOf "input" = .text from rfl, show shapeOf "operations" = .texts from rfl,
      show shapeOf "placeholder" = .text from rfl, show shapeOf "fallback" = .text from rfl,
      ← Document.exists_requiredText_iff, ← Document.exists_requiredText_iff,
      ← Document.exists_requiredTexts_iff, ← Document.exists_identifier?_iff]
    constructor
    · rintro ⟨kind, input, operations, placeholder, fallback, hinput, hoperations, hplaceholder,
        hfallback, rfl⟩
      exact ⟨⟨⟨input, hinput⟩, ⟨operations, hoperations⟩, ⟨placeholder, hplaceholder⟩⟩,
        ⟨fallback, hfallback⟩⟩
    · rintro ⟨⟨⟨input, hinput⟩, ⟨operations, hoperations⟩, ⟨placeholder, hplaceholder⟩⟩,
        ⟨fallback, hfallback⟩⟩
      exact ⟨_, input, operations, placeholder, fallback, hinput, hoperations, hplaceholder,
        hfallback, rfl⟩
  | template =>
    simp only [readKind_template_eq_ok_iff, Category.required, Category.optional,
      List.forall_mem_cons, List.not_mem_nil, false_implies, implies_true, and_true]
    rw [show shapeOf "file" = .text from rfl, show shapeOf "placeholders" = .texts from rfl,
      show shapeOf "fallback" = .text from rfl, ← Document.exists_requiredText_iff,
      ← Document.exists_texts_iff, ← Document.exists_identifier?_iff]
    constructor
    · rintro ⟨kind, file, placeholders, fallback, hfile, hplaceholders, hfallback, rfl⟩
      exact ⟨⟨file, hfile⟩, ⟨fallback, hfallback⟩, ⟨placeholders, hplaceholders⟩⟩
    · rintro ⟨⟨file, hfile⟩, ⟨fallback, hfallback⟩, ⟨placeholders, hplaceholders⟩⟩
      exact ⟨_, file, placeholders, fallback, hfile, hplaceholders, hfallback, rfl⟩

/-! ## Documents -/

theorem filter_not_contains_iff {keys known : List String} :
    (¬ (!(keys.filter fun key => !known.contains key).isEmpty) = true) ↔
      ∀ key ∈ keys, key ∈ known := by
  simp [List.filter_eq_nil_iff]

theorem readDocument_eq_ok_iff {keys : List String} {operation : Operation} :
    readDocument document keys = .ok operation ↔
      ∃ category kind condition names modifiers, readCategory document = .ok category ∧
        (∀ key ∈ keys, key ∈ category.keys) ∧ readKind document category = .ok kind ∧
        readCondition document = .ok condition ∧ document.texts "modifiers" = .ok names ∧
        readModifiers document.identifier names = .ok modifiers ∧
        { identifier := document.identifier, condition, kind := kind.withModifiers modifiers } =
          operation := by
  simp only [readDocument, bind_eq_ok_iff, ite_throw_eq_ok_iff, filter_not_contains_iff, pure,
    Except.pure, Except.ok.injEq, exists_and_left]

theorem read_eq_ok_iff {value : Yaml.Value} {operation : Operation} :
    read value = .ok operation ↔
      ∃ fields keys identifier, value = .mapping fields ∧
        (fields.mapM fun field => field.1.keyText?) = some keys ∧
        (∀ key ∈ keys, key ∈ supportedKeys) ∧
        Yaml.Value.textOf? fields "identifier" = some identifier ∧ identifier ≠ "" ∧
        readDocument { identifier, fields } keys = .ok operation := by
  constructor
  · intro h
    unfold read at h
    split at h
    · cases h
    · cases h
    · next fields _ =>
      split at h
      · cases h
      · next keys hkeys =>
        obtain ⟨hsupported, h⟩ := ite_throw_eq_ok_iff.1 h
        split at h
        · cases h
        · next identifier hidentifier =>
          obtain ⟨hne, h⟩ := ite_throw_eq_ok_iff.1 h
          rw [← Yaml.Value.textOf?_eq] at hidentifier
          exact ⟨fields, keys, identifier, rfl, hkeys, filter_not_contains_iff.1 hsupported,
            hidentifier, hne, h⟩
    · cases h
  · rintro ⟨fields, keys, identifier, rfl, hkeys, hsupported, hidentifier, hne, h⟩
    rw [Yaml.Value.textOf?_eq] at hidentifier
    cases fields with
    | nil => cases hidentifier
    | cons field fields =>
      simp only [read, hkeys, hidentifier, if_neg hne]
      exact ite_throw_eq_ok_iff.2 ⟨filter_not_contains_iff.2 hsupported, h⟩

/-! ## Which documents are read -/

theorem exists_readCondition_iff :
    (∃ condition, readCondition document = .ok condition) ↔
      Document.Fits document.fields .text "condition" ∧
        ∀ source, Yaml.Value.textOf? document.fields "condition" = some source →
          ∃ condition, Condition.parse source = .ok condition := by
  simp only [readCondition_eq_ok_iff]
  constructor
  · rintro ⟨condition, source?, hsource, hparse⟩
    refine ⟨Document.exists_text?_iff.1 ⟨source?, hsource⟩, ?_⟩
    intro source htext
    rw [Document.textOf?_of_text? hsource] at htext
    rw [htext] at hparse
    obtain ⟨condition, -, hcondition⟩ := Option.map_eq_some_iff.1 hparse.symm
    exact ⟨condition, hcondition.symm⟩
  · rintro ⟨hfits, hparses⟩
    obtain ⟨source?, hsource⟩ := Document.exists_text?_iff.2 hfits
    cases source? with
    | none => exact ⟨none, none, hsource, rfl⟩
    | some source =>
      obtain ⟨condition, hcondition⟩ := hparses source (Document.textOf?_of_text? hsource)
      exact ⟨some condition, some source, hsource, congrArg some hcondition⟩

theorem exists_readModifiers_iff {identifier : String} {names : List String} :
    (∃ modifiers, readModifiers identifier names = .ok modifiers) ↔
      ∀ name ∈ names, ∃ modifier : Modifier, name = modifier.name := by
  simp only [readModifiers_eq_ok_iff]
  constructor
  · rintro ⟨modifiers, rfl⟩ name hname
    obtain ⟨modifier, -, rfl⟩ := List.mem_map.1 hname
    exact ⟨modifier, rfl⟩
  · intro h
    induction names with
    | nil => exact ⟨[], rfl⟩
    | cons name names ih =>
      obtain ⟨modifier, rfl⟩ := h name List.mem_cons_self
      obtain ⟨modifiers, rfl⟩ := ih fun name hname => h name (List.mem_cons_of_mem _ hname)
      exact ⟨modifier :: modifiers, rfl⟩

theorem isDocument_of_read {value : Yaml.Value} (huntagged : value.Untagged) {operation : Operation}
    (h : read value = .ok operation) : IsDocument value := by
  obtain ⟨fields, keys, identifier, rfl, hkeys, -, hidentifier, hne, h⟩ := read_eq_ok_iff.1 h
  obtain ⟨category, kind, condition, names, modifiers, hcategory, hsupported, hkind, hcondition,
    hnames, hmodifiers, -⟩ := readDocument_eq_ok_iff.1 h
  have htype := readCategory_eq_ok_iff.1 hcategory
  obtain ⟨hrequired, hoptional⟩ := exists_readKind_iff.1 ⟨kind, hkind⟩
  obtain ⟨hconditionText, hparses⟩ := exists_readCondition_iff.1 ⟨condition, hcondition⟩
  have hfieldKeys : ∀ field ∈ fields, ∃ key ∈ category.keys, field.1 = .string key := by
    cases huntagged with
    | mapping huntagged _ =>
      intro field hfield
      obtain ⟨key, hkey⟩ :=
        Option.isSome_iff_exists.1 (exists_mapM_eq_some_iff.1 ⟨keys, hkeys⟩ field hfield)
      have hmem : key ∈ keys := (mem_iff_of_mapM hkeys).2 ⟨field, hfield, hkey⟩
      exact ⟨key, hsupported key hmem,
        (Yaml.Value.keyText?_eq_some_iff (huntagged field hfield)).1 hkey⟩
  have hshared : ∀ key ∈ ["identifier", "type", "condition", "modifiers"],
      Document.Fits fields (shapeOf key) key := by
    simp only [List.forall_mem_cons, List.not_mem_nil, false_implies, implies_true, and_true]
    exact ⟨Document.fits_of_textOf? hidentifier, Document.fits_of_textOf? htype, hconditionText,
      Document.exists_texts_iff.1 ⟨names, hnames⟩⟩
  -- What `readKind` does not look at are the fields that all types have, and the modifiers.
  have hfits : ∀ key ∈ category.keys, Document.Fits fields (shapeOf key) key := by
    intro key hkey
    obtain hkey | hkey | hkey := Category.mem_keys hkey
    · exact hshared key hkey
    · exact (hrequired key hkey).fits
    · exact hoptional key hkey
  refine ⟨fields, category, rfl, ?_, ?_⟩
  · rintro rfl
    cases hidentifier
  · exact {
      keys := hfieldKeys
      identifier := ⟨identifier, hidentifier, hne⟩
      type := htype
      required := by
        intro key hkey
        obtain ⟨value, hvalue, -, hempty⟩ := hrequired key hkey
        exact ⟨value, hvalue, hempty⟩
      shapes := by
        intro key value hvalue
        obtain ⟨_, hkey, heq⟩ := hfieldKeys _ (Yaml.Value.mem_of_given? hvalue)
        cases heq
        exact hfits key hkey value hvalue
      condition := hparses
      modifiers := by
        rw [Document.listed_of_texts hnames]
        exact exists_readModifiers_iff.1 ⟨modifiers, hmodifiers⟩ }

theorem exists_read_of_isDocument {value : Yaml.Value} (h : IsDocument value) :
    ∃ operation, read value = .ok operation := by
  obtain ⟨fields, category, rfl, -, hvalid⟩ := h
  obtain ⟨identifier, hidentifier, hne⟩ := hvalid.identifier
  have hkeyTexts : ∀ field ∈ fields, field.1.keyText?.isSome := by
    intro field hfield
    obtain ⟨key, -, hkey⟩ := hvalid.keys field hfield
    rw [hkey]
    rfl
  obtain ⟨keys, hkeys⟩ := exists_mapM_eq_some_iff.2 hkeyTexts
  have hcategoryKeys : ∀ key ∈ keys, key ∈ category.keys := by
    intro key hkey
    obtain ⟨field, hfield, hkey⟩ := (mem_iff_of_mapM hkeys).1 hkey
    obtain ⟨_, hmem, heq⟩ := hvalid.keys field hfield
    rw [heq] at hkey
    cases hkey
    exact hmem
  let document : Document := { identifier, fields }
  have hrequired : ∀ key ∈ category.required,
      Document.Fills document.fields (shapeOf key) key := by
    intro key hkey
    obtain ⟨value, hvalue, hempty⟩ := hvalid.required key hkey
    exact ⟨value, hvalue, hvalid.shapes key value hvalue, hempty⟩
  obtain ⟨kind, hkind⟩ :=
    exists_readKind_iff.2 ⟨hrequired, fun key _ => hvalid.shapes key⟩
  obtain ⟨condition, hcondition⟩ : ∃ condition, readCondition document = .ok condition :=
    exists_readCondition_iff.2 ⟨hvalid.shapes "condition", hvalid.condition⟩
  obtain ⟨names, hnames⟩ : ∃ names, document.texts "modifiers" = .ok names :=
    Document.exists_texts_iff.2 (hvalid.shapes "modifiers")
  have hsupported := hvalid.modifiers
  rw [show fields = document.fields from rfl, Document.listed_of_texts hnames] at hsupported
  obtain ⟨modifiers, hmodifiers⟩ : ∃ modifiers, readModifiers identifier names = .ok modifiers :=
    exists_readModifiers_iff.2 hsupported
  have hdocument := readDocument_eq_ok_iff.2 ⟨category, kind, condition, names, modifiers,
    readCategory_eq_ok_iff.2 hvalid.type, hcategoryKeys, hkind, hcondition, hnames, hmodifiers, rfl⟩
  exact ⟨_, read_eq_ok_iff.2 ⟨fields, keys, identifier, rfl, hkeys,
    fun key hkey => Category.mem_supportedKeys (hcategoryKeys key hkey), hidentifier, hne,
    hdocument⟩⟩

theorem exists_read_iff {value : Yaml.Value} (h : value.Untagged) :
    (∃ operation, read value = .ok operation) ↔ IsDocument value := by
  constructor
  · rintro ⟨operation, hread⟩
    exact isDocument_of_read h hread
  · exact exists_read_of_isDocument

/-! ## What is read -/

theorem source_of_parse {source : String} {condition : Condition}
    (h : Condition.parse source = .ok condition) : condition.source = source := by
  obtain ⟨expression, -, heq⟩ := bind_eq_ok_iff.1 h
  cases heq
  rfl

theorem Kind.valid_withModifiers {kind : Kind} {modifiers : List Modifier} (h : kind.Valid) :
    (kind.withModifiers modifiers).Valid := by
  cases kind <;> exact h

theorem Document.ne_empty_of_identifier? {field : String} {result : Option String}
    (h : document.identifier? field = .ok result) : result ≠ some "" := by
  obtain ⟨text, -, rfl⟩ := Document.identifier?_eq_ok_iff.1 h
  intro hempty
  have hne := (Option.filter_eq_some_iff.1 hempty).2
  exact absurd hne (by decide)

theorem valid_of_readKind {category : Category} {kind : Kind}
    (h : readKind document category = .ok kind) : kind.Valid := by
  cases category with
  | group =>
    obtain ⟨operations, hoperations, rfl⟩ := readKind_group_eq_ok_iff.1 h
    exact (Document.requiredTexts_eq_ok_iff.1 hoperations).2
  | selection =>
    obtain ⟨input, options, default, hinput, -, hfull, hdefault, rfl⟩ :=
      readKind_selection_eq_ok_iff.1 h
    exact ⟨(Document.requiredText_eq_ok_iff.1 hinput).2, hfull,
      Document.ne_empty_of_identifier? hdefault⟩
  | sequence =>
    obtain ⟨input, operations, placeholder, fallback, hinput, hoperations, hplaceholder, hfallback,
      rfl⟩ := readKind_sequence_eq_ok_iff.1 h
    exact ⟨(Document.requiredText_eq_ok_iff.1 hinput).2,
      (Document.requiredTexts_eq_ok_iff.1 hoperations).2,
      (Document.requiredText_eq_ok_iff.1 hplaceholder).2,
      Document.ne_empty_of_identifier? hfallback⟩
  | template =>
    obtain ⟨file, placeholders, fallback, hfile, -, hfallback, rfl⟩ :=
      readKind_template_eq_ok_iff.1 h
    exact ⟨(Document.requiredText_eq_ok_iff.1 hfile).2,
      Document.ne_empty_of_identifier? hfallback⟩

theorem valid_of_read {value : Yaml.Value} {operation : Operation}
    (h : read value = .ok operation) : operation.Valid := by
  obtain ⟨fields, keys, identifier, rfl, -, -, -, hne, h⟩ := read_eq_ok_iff.1 h
  obtain ⟨category, kind, condition?, names, modifiers, -, -, hkind, hcondition, -, -, rfl⟩ :=
    readDocument_eq_ok_iff.1 h
  refine ⟨hne, ?_, Kind.valid_withModifiers (valid_of_readKind hkind)⟩
  rintro condition rfl
  obtain ⟨source?, -, hparse⟩ := readCondition_eq_ok_iff.1 hcondition
  obtain ⟨source, -, hsource⟩ := Option.map_eq_some_iff.1 hparse
  rw [source_of_parse hsource]
  exact hsource

/-- No modifier that a document lists gets lost. -/
theorem listed_modifiers_of_read {fields : List (Yaml.Value × Yaml.Value)} {operation : Operation}
    (h : read (.mapping fields) = .ok operation) :
    Yaml.Value.listed fields "modifiers" = operation.kind.modifiers.map Modifier.name := by
  obtain ⟨_, keys, identifier, heq, hkeys, -, -, hne, h⟩ := read_eq_ok_iff.1 h
  cases heq
  obtain ⟨category, kind, condition?, names, modifiers, -, hsupported, hkind, -, hnames,
    hmodifiers, rfl⟩ := readDocument_eq_ok_iff.1 h
  have hlisted : Yaml.Value.listed fields "modifiers" = modifiers.map Modifier.name :=
    (Document.listed_of_texts hnames).trans (readModifiers_eq_ok_iff.1 hmodifiers)
  -- Only a template takes modifiers; a document of another type has no field for them.
  have hkept : (kind.withModifiers modifiers).modifiers = modifiers := by
    cases hgiven : Yaml.Value.given? fields "modifiers" with
    | none =>
      rw [Yaml.Value.listed, hgiven] at hlisted
      have hnil : modifiers = [] := List.map_eq_nil_iff.1 hlisted.symm
      rw [hnil]
      cases kind <;> rfl
    | some value =>
      have hkey : "modifiers" ∈ keys :=
        (mem_iff_of_mapM hkeys).2 ⟨_, Yaml.Value.mem_of_given? hgiven, rfl⟩
      cases Category.eq_template_of_modifiers (hsupported _ hkey)
      obtain ⟨file, placeholders, fallback, -, -, -, rfl⟩ := readKind_template_eq_ok_iff.1 hkind
      rfl
  rw [hlisted, hkept]

end Operation

end Stencil
