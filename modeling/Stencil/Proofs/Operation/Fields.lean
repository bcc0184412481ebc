import Stencil.Operation.Document
import Stencil.Proofs.Results

/-!
# Fields of documents

Every field of a document is a text, a list of texts, or a mapping of texts, and a null is as good
as no field. Each reader of a field is described by an iff that says when it reads what
(`text?_eq_ok_iff` to `entries_eq_ok_iff`); a reader succeeds exactly if the field, where it is
given, has its shape.
-/

namespace Stencil

namespace Yaml.Value

/-- No part of the value has a tag of its own. -/
inductive Untagged : Value → Prop where
  | null : Untagged .null
  | bool (value : Bool) : Untagged (.bool value)
  | number (value : Number) : Untagged (.number value)
  | string (text : String) : Untagged (.string text)
  | sequence {items : List Value} (h : ∀ item ∈ items, Untagged item) : Untagged (.sequence items)
  | mapping {pairs : List (Value × Value)} (hkeys : ∀ pair ∈ pairs, Untagged pair.1)
      (hvalues : ∀ pair ∈ pairs, Untagged pair.2) : Untagged (.mapping pairs)

/-- Whether the value is a text, a number or a truth value. -/
def isScalar : Value → Bool
  | .string _ | .number _ | .bool _ => true
  | _ => false

/-- Whether the value is an empty text, list or mapping. -/
def isEmpty : Value → Bool
  | .sequence items => items.isEmpty
  | .mapping pairs => pairs.isEmpty
  | value => value.text? = some ""

/-- The value of a key; a null is no value. -/
def given? (pairs : List (Value × Value)) (name : String) : Option Value :=
  match field? pairs name with
  | some .null => none
  | value => value

/-- The texts of a list. -/
def texts? : Value → Option (List String)
  | .sequence items => items.mapM text?
  | _ => none

def pairTexts? (pair : Value × Value) : Option (String × String) := do
  let key ← pair.1.text?
  let value ← pair.2.text?
  return (key, value)

/-- The texts of the keys and values of a mapping. -/
def entries? : Value → Option (Entries String String)
  | .mapping pairs => (pairs.mapM pairTexts?).map .ofList
  | _ => none

/-- The text under a key; none if there is no scalar. -/
def textOf? (pairs : List (Value × Value)) (name : String) : Option String :=
  (given? pairs name).bind text?

/-- The texts of the list under a key; no texts if there is no list of scalars. -/
def listed (pairs : List (Value × Value)) (name : String) : List String :=
  ((given? pairs name).bind texts?).getD []

theorem isSome_text? (value : Value) : value.text?.isSome = value.isScalar := by
  cases value <;> rfl

theorem isSome_pairTexts? (pair : Value × Value) :
    (pairTexts? pair).isSome = (pair.1.isScalar && pair.2.isScalar) := by
  rw [← isSome_text?, ← isSome_text?, pairTexts?]
  cases pair.1.text? <;> cases pair.2.text? <;> rfl

theorem isEmpty_of_text? {value : Value} {text : String} (h : value.text? = some text) :
    value.isEmpty = decide (text = "") := by
  cases value <;> cases h <;> simp [isEmpty, text?]

theorem isEmpty_of_texts? {value : Value} {texts : List String} (h : value.texts? = some texts) :
    value.isEmpty = texts.isEmpty := by
  cases value with
  | sequence items =>
    have hlength := congrArg List.length (mapM_eq_some_iff.1 h)
    rw [List.length_map, List.length_map] at hlength
    rw [isEmpty, Bool.eq_iff_iff, List.isEmpty_iff_length_eq_zero, List.isEmpty_iff_length_eq_zero,
      hlength]
  | _ => cases h

theorem isEmpty_of_entries? {value : Value} {entries : Entries String String}
    (h : value.entries? = some entries) : value.isEmpty = entries.isEmpty := by
  cases value with
  | mapping pairs =>
    obtain ⟨texts, htexts, rfl⟩ := Option.map_eq_some_iff.1 h
    have hlength := congrArg List.length (mapM_eq_some_iff.1 htexts)
    rw [List.length_map, List.length_map] at hlength
    rw [Entries.ofList, Entries.isEmpty_insertAll, isEmpty, Bool.eq_iff_iff]
    change _ ↔ texts.isEmpty = true
    rw [List.isEmpty_iff_length_eq_zero, List.isEmpty_iff_length_eq_zero, hlength]
  | _ => cases h

theorem keyText?_eq_some_iff {key : Value} (h : key.Untagged) {name : String} :
    key.keyText? = some name ↔ key = .string name := by
  cases h <;> simp [keyText?]

theorem beq_string_iff {value : Value} {text : String} :
    (value == .string text) = true ↔ value = .string text := by
  change Value.beq value (.string text) = true ↔ _
  cases value <;> simp [Value.beq]

theorem mem_of_field? {pairs : List (Value × Value)} {name : String} {value : Value}
    (h : field? pairs name = some value) : (.string name, value) ∈ pairs := by
  obtain ⟨pair, hpair, rfl⟩ := Option.map_eq_some_iff.1 h
  have hkey := List.find?_some hpair
  rw [beq_string_iff] at hkey
  rw [← hkey]
  exact List.mem_of_find?_eq_some hpair

theorem field?_of_mem {pairs : List (Value × Value)} (h : (pairs.map Prod.fst).Nodup)
    {name : String} {value : Value} (hmem : (.string name, value) ∈ pairs) :
    field? pairs name = some value := by
  induction pairs with
  | nil => cases hmem
  | cons pair pairs ih =>
    rw [List.map_cons, List.nodup_cons] at h
    obtain rfl | hmem := List.mem_cons.1 hmem
    · simp [field?, beq_string_iff]
    · have hne : pair.1 ≠ .string name := by
        intro hkey
        apply h.1
        rw [hkey]
        exact List.mem_map_of_mem hmem
      have hbeq : (pair.1 == .string name) = false := by
        rw [Bool.eq_false_iff]
        exact mt beq_string_iff.1 hne
      have := ih h.2 hmem
      simpa [field?, hbeq] using this

theorem field?_of_perm {pairs pairs' : List (Value × Value)} (hperm : pairs.Perm pairs')
    (h : (pairs'.map Prod.fst).Nodup) (name : String) : field? pairs name = field? pairs' name := by
  have hnodup : (pairs.map Prod.fst).Nodup := (hperm.map Prod.fst).nodup_iff.2 h
  apply Option.ext
  intro value
  constructor
  · intro hvalue
    exact field?_of_mem h (hperm.mem_iff.1 (mem_of_field? hvalue))
  · intro hvalue
    exact field?_of_mem hnodup (hperm.mem_iff.2 (mem_of_field? hvalue))

theorem textOf?_eq {pairs : List (Value × Value)} {name : String} :
    textOf? pairs name = (field? pairs name).bind text? := by
  unfold textOf? given?
  split
  · next h => rw [h]; rfl
  · rfl

theorem mem_of_given? {pairs : List (Value × Value)} {name : String} {value : Value}
    (h : given? pairs name = some value) : (.string name, value) ∈ pairs := by
  apply mem_of_field?
  unfold given? at h
  split at h
  · cases h
  · exact h

end Yaml.Value

namespace Operation

inductive Shape where
  | text
  | texts
  | entries
  deriving DecidableEq, Repr

/-- The value is a scalar, a list of scalars, or a mapping of scalars to scalars. -/
def Shape.Fits : Shape → Yaml.Value → Prop
  | .text, value => value.isScalar
  | .texts, value => ∃ items, value = .sequence items ∧ ∀ item ∈ items, item.isScalar
  | .entries, value =>
    ∃ pairs, value = .mapping pairs ∧ ∀ pair ∈ pairs, pair.1.isScalar ∧ pair.2.isScalar

theorem isSome_texts?_iff {value : Yaml.Value} : value.texts?.isSome ↔ Shape.texts.Fits value := by
  cases value with
  | sequence items =>
    rw [Yaml.Value.texts?, Option.isSome_iff_exists, exists_mapM_eq_some_iff]
    simp [Shape.Fits, Yaml.Value.isSome_text?]
  | _ => simp [Yaml.Value.texts?, Shape.Fits]

theorem isSome_entries?_iff {value : Yaml.Value} :
    value.entries?.isSome ↔ Shape.entries.Fits value := by
  cases value with
  | mapping pairs =>
    rw [Yaml.Value.entries?, Option.isSome_map, Option.isSome_iff_exists, exists_mapM_eq_some_iff]
    simp [Shape.Fits, Yaml.Value.isSome_pairTexts?]
  | _ => simp [Yaml.Value.entries?, Shape.Fits]

namespace Document

variable {document : Document} {field : String} {α : Type}

/-- What a field that need not be there is read as. -/
def optional (document : Document) (read : Yaml.Value → Option α) (field : String) :
    Except DocumentFault (Option α) :=
  match Yaml.Value.given? document.fields field with
  | none => .ok none
  | some value =>
    match read value with
    | some result => .ok (some result)
    | none => .error (.invalidField field document.identifier)

theorem optional_eq_ok_iff {read : Yaml.Value → Option α} {result : Option α} :
    document.optional read field = .ok result ↔
      (Yaml.Value.given? document.fields field).map read = result.map some := by
  unfold optional
  cases Yaml.Value.given? document.fields field with
  | none => cases result <;> simp
  | some value => cases hread : read value <;> cases result <;> simp [hread]

theorem text?_eq : document.text? field = document.optional Yaml.Value.text? field := by
  unfold text? optional Yaml.Value.given?
  cases Yaml.Value.field? document.fields field with
  | none => rfl
  | some value => cases value <;> rfl

theorem texts_eq :
    document.texts field = (document.optional Yaml.Value.texts? field).map (·.getD []) := by
  unfold texts optional Yaml.Value.given?
  cases Yaml.Value.field? document.fields field with
  | none => rfl
  | some value =>
    cases value with
    | sequence items =>
      simp only [Yaml.Value.texts?]
      cases items.mapM Yaml.Value.text? <;> rfl
    | _ => rfl

theorem entries_eq :
    document.entries field = (document.optional Yaml.Value.entries? field).map (·.getD .empty) := by
  unfold entries optional Yaml.Value.given?
  cases Yaml.Value.field? document.fields field with
  | none => rfl
  | some value =>
    cases value with
    | mapping pairs =>
      dsimp only
      split
      · next texts h =>
        have htexts : pairs.mapM Yaml.Value.pairTexts? = some texts := h
        simp only [Yaml.Value.entries?, htexts, Option.map_some]
        rfl
      · next h =>
        have htexts : pairs.mapM Yaml.Value.pairTexts? = none := h
        simp only [Yaml.Value.entries?, htexts, Option.map_none]
        rfl
    | _ => rfl

theorem text?_eq_ok_iff {result : Option String} :
    document.text? field = .ok result ↔
      (Yaml.Value.given? document.fields field).map Yaml.Value.text? = result.map some := by
  rw [text?_eq, optional_eq_ok_iff]

theorem identifier?_eq_ok_iff {result : Option String} :
    document.identifier? field = .ok result ↔
      ∃ text : Option String,
        (Yaml.Value.given? document.fields field).map Yaml.Value.text? = text.map some ∧
          text.filter (· ≠ "") = result := by
  rw [identifier?, bind_eq_ok_iff]
  simp only [text?_eq_ok_iff, pure, Except.pure, Except.ok.injEq]

theorem texts_eq_ok_iff {result : List String} :
    document.texts field = .ok result ↔
      ∃ texts : Option (List String),
        (Yaml.Value.given? document.fields field).map Yaml.Value.texts? = texts.map some ∧
          texts.getD [] = result := by
  simp only [texts_eq, map_eq_ok_iff, optional_eq_ok_iff]

theorem entries_eq_ok_iff {result : Entries String String} :
    document.entries field = .ok result ↔
      ∃ entries : Option (Entries String String),
        (Yaml.Value.given? document.fields field).map Yaml.Value.entries? = entries.map some ∧
          entries.getD .empty = result := by
  simp only [entries_eq, map_eq_ok_iff, optional_eq_ok_iff]

theorem map_eq_some_iff_bind {read : Yaml.Value → Option α} {value? : Option Yaml.Value}
    {result : α} :
    value?.map read = (some result).map some ↔ value?.bind read = some result := by
  cases value? <;> simp

theorem bind_eq_of_map_eq {read : Yaml.Value → Option α} {value? : Option Yaml.Value}
    {result : Option α} (h : value?.map read = result.map some) : value?.bind read = result := by
  cases result with
  | none =>
    rw [Option.map_eq_none_iff.1 h]
    rfl
  | some result => exact map_eq_some_iff_bind.1 h

theorem requiredText_eq_ok_iff {result : String} :
    document.requiredText field = .ok result ↔
      Yaml.Value.textOf? document.fields field = some result ∧ result ≠ "" := by
  rw [requiredText, bind_eq_ok_iff]
  simp only [text?_eq_ok_iff]
  constructor
  · rintro ⟨_ | text, htext, h⟩
    · cases h
    · obtain ⟨hne, h⟩ := ite_throw_eq_ok_iff.1 h
      cases h
      exact ⟨map_eq_some_iff_bind.1 htext, hne⟩
  · rintro ⟨h, hne⟩
    exact ⟨some result, map_eq_some_iff_bind.2 h, if_neg hne⟩

theorem requiredTexts_eq_ok_iff {result : List String} :
    document.requiredTexts field = .ok result ↔
      (Yaml.Value.given? document.fields field).bind Yaml.Value.texts? = some result ∧
        result ≠ [] := by
  rw [requiredTexts, bind_eq_ok_iff]
  simp only [texts_eq_ok_iff]
  constructor
  · rintro ⟨texts, ⟨_ | _, htexts, rfl⟩, h⟩
    · cases h
    · obtain ⟨hne, h⟩ := ite_throw_eq_ok_iff.1 h
      cases h
      exact ⟨map_eq_some_iff_bind.1 htexts, mt List.isEmpty_iff.2 hne⟩
  · rintro ⟨h, hne⟩
    exact ⟨result, ⟨some result, map_eq_some_iff_bind.2 h, rfl⟩, if_neg (mt List.isEmpty_iff.1 hne)⟩

theorem textOf?_of_text? {result : Option String} (h : document.text? field = .ok result) :
    Yaml.Value.textOf? document.fields field = result :=
  bind_eq_of_map_eq (text?_eq_ok_iff.1 h)

theorem listed_of_texts {result : List String} (h : document.texts field = .ok result) :
    Yaml.Value.listed document.fields field = result := by
  obtain ⟨texts, htexts, rfl⟩ := texts_eq_ok_iff.1 h
  rw [Yaml.Value.listed, bind_eq_of_map_eq htexts]

/-! ## Fields that can be read -/

theorem exists_map_eq_iff {read : Yaml.Value → Option α} {value? : Option Yaml.Value} :
    (∃ result : Option α, value?.map read = result.map some) ↔
      ∀ value, value? = some value → (read value).isSome := by
  cases value? with
  | none =>
    refine ⟨?_, fun _ => ⟨none, rfl⟩⟩
    rintro - value ⟨⟩
  | some value =>
    constructor
    · rintro ⟨_ | result, h⟩ _ ⟨⟩
      · cases h
      · rw [Option.some.inj h]
        rfl
    · intro h
      obtain ⟨result, hresult⟩ := Option.isSome_iff_exists.1 (h value rfl)
      exact ⟨some result, by rw [Option.map_some, hresult, Option.map_some]⟩

/-- The field has its shape, where it is given. -/
def Fits (fields : List (Yaml.Value × Yaml.Value)) (shape : Shape) (field : String) : Prop :=
  ∀ value, Yaml.Value.given? fields field = some value → shape.Fits value

/-- The field is given, has its shape, and is not empty. -/
def Fills (fields : List (Yaml.Value × Yaml.Value)) (shape : Shape) (field : String) : Prop :=
  ∃ value, Yaml.Value.given? fields field = some value ∧ shape.Fits value ∧ value.isEmpty = false

theorem fits_of_textOf? {fields : List (Yaml.Value × Yaml.Value)} {text : String}
    (h : Yaml.Value.textOf? fields field = some text) : Fits fields .text field := by
  intro value hvalue
  rw [Yaml.Value.textOf?, hvalue, Option.bind_some] at h
  rw [Shape.Fits, ← Yaml.Value.isSome_text?, h]
  rfl

theorem Fills.fits {fields : List (Yaml.Value × Yaml.Value)} {shape : Shape}
    (h : Fills fields shape field) : Fits fields shape field := by
  obtain ⟨value, hvalue, hfits, -⟩ := h
  intro value' hvalue'
  rw [hvalue] at hvalue'
  cases hvalue'
  exact hfits

theorem exists_text?_iff :
    (∃ result, document.text? field = .ok result) ↔ Fits document.fields .text field := by
  simp only [text?_eq_ok_iff, exists_map_eq_iff, Yaml.Value.isSome_text?]
  rfl

theorem exists_identifier?_iff :
    (∃ result, document.identifier? field = .ok result) ↔ Fits document.fields .text field := by
  simp only [identifier?_eq_ok_iff, ← exists_text?_iff, text?_eq_ok_iff]
  rw [exists_comm]
  simp only [exists_and_left, exists_eq', and_true]

theorem exists_texts_iff :
    (∃ result, document.texts field = .ok result) ↔ Fits document.fields .texts field := by
  simp only [texts_eq_ok_iff]
  rw [exists_comm]
  simp only [exists_and_left, exists_eq', and_true, exists_map_eq_iff, isSome_texts?_iff]
  rfl

/-- A field is filled if it is read as something that is not empty. -/
theorem exists_bind_iff_fills {fields : List (Yaml.Value × Yaml.Value)} {shape : Shape}
    {read : Yaml.Value → Option α} {full : α → Prop}
    (hshape : ∀ value, (read value).isSome ↔ shape.Fits value)
    (hfull : ∀ value result, read value = some result → (value.isEmpty = false ↔ full result)) :
    (∃ result, (Yaml.Value.given? fields field).bind read = some result ∧ full result) ↔
      Fills fields shape field := by
  constructor
  · rintro ⟨result, h, hresult⟩
    obtain ⟨value, hvalue, hread⟩ := Option.bind_eq_some_iff.1 h
    refine ⟨value, hvalue, ?_, (hfull value result hread).2 hresult⟩
    rw [← hshape, hread]
    rfl
  · rintro ⟨value, hvalue, hfits, hempty⟩
    obtain ⟨result, hread⟩ := Option.isSome_iff_exists.1 ((hshape value).2 hfits)
    refine ⟨result, ?_, (hfull value result hread).1 hempty⟩
    rw [hvalue]
    exact hread

theorem exists_requiredText_iff :
    (∃ result, document.requiredText field = .ok result) ↔ Fills document.fields .text field := by
  simp only [requiredText_eq_ok_iff]
  apply exists_bind_iff_fills
  · intro value
    rw [Yaml.Value.isSome_text?]
    rfl
  · intro value text htext
    rw [Yaml.Value.isEmpty_of_text? htext, decide_eq_false_iff_not]

theorem exists_requiredTexts_iff :
    (∃ result, document.requiredTexts field = .ok result) ↔
      Fills document.fields .texts field := by
  simp only [requiredTexts_eq_ok_iff]
  apply exists_bind_iff_fills fun _ => isSome_texts?_iff
  intro value texts htexts
  rw [Yaml.Value.isEmpty_of_texts? htexts, List.isEmpty_eq_false_iff]

theorem exists_entries_iff :
    (∃ result, document.entries field = .ok result ∧ result.isEmpty = false) ↔
      Fills document.fields .entries field := by
  have hfull : ∀ (value : Yaml.Value) entries, value.entries? = some entries →
      (value.isEmpty = false ↔ entries.isEmpty = false) := by
    intro value entries hentries
    rw [Yaml.Value.isEmpty_of_entries? hentries]
  rw [← exists_bind_iff_fills (fun _ => isSome_entries?_iff) hfull]
  simp only [entries_eq_ok_iff]
  apply exists_congr
  intro entries
  apply and_congr_left
  intro hfull
  constructor
  · rintro ⟨_ | _, h, rfl⟩
    · cases hfull
    · exact map_eq_some_iff_bind.1 h
  · intro h
    exact ⟨some entries, map_eq_some_iff_bind.2 h, rfl⟩

end Document

end Operation

end Stencil
