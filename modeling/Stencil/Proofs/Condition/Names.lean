import Stencil.Proofs.Condition.Printing

/-!
# Names in conditions

Evaluation asks a namespace for the first words of the names in an expression and for nothing else.
Where a namespace only gives values to more of them, the result is the same, unless it was a fault
that told of a name without a value (`evaluate_of_grows`). So a condition that has a truth value
keeps it when names are added, and names that do not occur in it do not matter (`holds_of_names`).

`Fails` says which faults there are, with a rule for each of their origins and one for each place
that is evaluated; nothing else makes evaluation fail (`evaluate_eq_error_iff_fails`). A name
without words is one of the origins, but only an expression that has such a name fails for it
(`Fails.nil_mem_paths`), and no expression that is read has one (`WellFormed.isName_of_mem_paths`).
-/

namespace Stencil.Condition

/-! ## The names of an expression -/

namespace Expression

mutual

/-- The names in an expression, each as the words between its dots. -/
def paths : Expression → List (List String)
  | .literal _ => []
  | .name path => [path]
  | .list items => pathsOfItems items
  | .not inner => inner.paths
  | .and left right => left.paths ++ right.paths
  | .or left right => left.paths ++ right.paths
  | .compare _ left right => left.paths ++ right.paths

/-- The names in the items of a list. -/
def pathsOfItems : List Expression → List (List String)
  | [] => []
  | item :: items => item.paths ++ pathsOfItems items

end

/-- The first words of the names in an expression. -/
def names (e : Expression) : List String :=
  e.paths.filterMap List.head?

theorem pathsOfItems_eq (items : List Expression) : pathsOfItems items = items.flatMap paths := by
  induction items with
  | nil => rfl
  | cons item items ih => rw [pathsOfItems, ih, List.flatMap_cons]

/-- The names of a well-formed expression are words with dots between them, at least one word. -/
theorem WellFormed.isName_of_mem_paths {e : Expression} (h : e.WellFormed) :
    ∀ path ∈ e.paths, path ≠ [] ∧ ∀ word ∈ path, isName word := by
  induction h with
  | literal => simp [paths]
  | name hne h =>
    rw [paths, List.forall_mem_singleton]
    exact ⟨hne, h⟩
  | list _ ih =>
    intro path hpath
    rw [paths, pathsOfItems_eq] at hpath
    obtain ⟨item, hitem, hpath⟩ := List.mem_flatMap.1 hpath
    exact ih item hitem path hpath
  | not _ ih =>
    rw [paths]
    exact ih
  | and _ _ ihleft ihright | or _ _ ihleft ihright | compare _ _ ihleft ihright =>
    rw [paths, List.forall_mem_append]
    exact ⟨ihleft, ihright⟩

end Expression

open Expression

/-! ## More names -/

variable {names names' : Namespace}

section grows

variable {α β : Type} {Added : String → Prop}

/-- The results are the same, or the first is the fault that one of the words has no value. -/
def SameUnless (Added : String → Prop) (result result' : Except EvaluationFault α) : Prop :=
  result = result' ∨ ∃ word, Added word ∧ result = .error (.undefinedName word)

theorem SameUnless.refl (result : Except EvaluationFault α) : SameUnless Added result result :=
  .inl rfl

theorem SameUnless.bind {x x' : Except EvaluationFault α} {f f' : α → Except EvaluationFault β}
    (h : SameUnless Added x x') (hf : ∀ value, SameUnless Added (f value) (f' value)) :
    SameUnless Added (x >>= f) (x' >>= f') := by
  obtain rfl | ⟨word, hword, rfl⟩ := h
  · cases x with
    | error fault => exact .refl _
    | ok value => exact hf value
  · exact .inr ⟨word, hword, rfl⟩

theorem SameUnless.eq_of_ok {result result' : Except EvaluationFault α} {value : α}
    (h : SameUnless Added result result') (hok : result = .ok value) : result' = .ok value := by
  obtain rfl | ⟨word, -, rfl⟩ := h
  · exact hok
  · cases hok

theorem SameUnless.eq_of_forall_not {result result' : Except EvaluationFault α}
    (h : SameUnless Added result result') (hnone : ∀ word, ¬ Added word) : result = result' := by
  obtain heq | ⟨word, hword, -⟩ := h
  · exact heq
  · exact absurd hword (hnone word)

end grows

/-- Of the words, those that have a value keep it. -/
def Grows (words : List String) (names names' : Namespace) : Prop :=
  ∀ word ∈ words, names word = none ∨ names word = names' word

/-- The words that get a value. -/
def Added (words : List String) (names names' : Namespace) (word : String) : Prop :=
  word ∈ words ∧ names word ≠ names' word

mutual

theorem evaluate_of_grows {words : List String} (h : Grows words names names') :
    (e : Expression) → e.names ⊆ words →
    SameUnless (Added words names names') (evaluate names e) (evaluate names' e)
  | .literal constant, _ => by
    rw [evaluate, evaluate]
    exact .refl _
  | .name [], _ => by
    rw [evaluate, evaluate]
    exact .refl _
  | .name (first :: attributes), hnames => by
    have hword : first ∈ words := hnames (by simp [Expression.names, paths])
    rw [evaluate, evaluate, nameValue, nameValue]
    by_cases hsame : names first = names' first
    · rw [hsame]
      exact .refl _
    · obtain hnone | heq := h first hword
      · refine .inr ⟨first, ⟨hword, hsame⟩, ?_⟩
        rw [hnone]
      · exact absurd heq hsame
  | .list items, hnames => by
    rw [evaluate, evaluate]
    exact (evaluateItems_of_grows h items (by simpa [Expression.names, paths] using hnames)).bind
      fun _ => .refl _
  | .not inner, hnames => by
    rw [evaluate, evaluate]
    exact (evaluate_of_grows h inner (by simpa [Expression.names, paths] using hnames)).bind
      fun _ => .refl _
  | .and left right, hnames => by
    simp only [Expression.names, paths, List.filterMap_append, List.append_subset] at hnames
    rw [evaluate, evaluate]
    refine (evaluate_of_grows h left hnames.1).bind fun value => ?_
    split
    · exact (evaluate_of_grows h right hnames.2).bind fun _ => .refl _
    · exact .refl _
  | .or left right, hnames => by
    simp only [Expression.names, paths, List.filterMap_append, List.append_subset] at hnames
    rw [evaluate, evaluate]
    refine (evaluate_of_grows h left hnames.1).bind fun value => ?_
    split
    · exact .refl _
    · exact (evaluate_of_grows h right hnames.2).bind fun _ => .refl _
  | .compare sign left right, hnames => by
    simp only [Expression.names, paths, List.filterMap_append, List.append_subset] at hnames
    rw [evaluate, evaluate]
    exact (evaluate_of_grows h left hnames.1).bind fun _ =>
      (evaluate_of_grows h right hnames.2).bind fun _ => .refl _

theorem evaluateItems_of_grows {words : List String} (h : Grows words names names') :
    (items : List Expression) → (pathsOfItems items).filterMap List.head? ⊆ words →
    SameUnless (Added words names names') (evaluateItems names items) (evaluateItems names' items)
  | [], _ => by
    rw [evaluateItems, evaluateItems]
    exact .refl _
  | item :: items, hnames => by
    simp only [pathsOfItems, List.filterMap_append, List.append_subset] at hnames
    rw [evaluateItems, evaluateItems]
    exact (evaluate_of_grows h item hnames.1).bind fun _ =>
      (evaluateItems_of_grows h items hnames.2).bind fun _ => .refl _

end

/-- What a condition says is the same after names are added, unless it told of one of them that it
had no value. -/
theorem holds_of_grows {condition : Condition}
    (h : Grows condition.expression.names names names') :
    SameUnless (Added condition.expression.names names names') (condition.holds names)
      (condition.holds names') :=
  (evaluate_of_grows h condition.expression (List.Subset.refl _)).bind fun _ => .refl _

/-! ## Faults -/

/-- What is in the value can be asked: a list may hold anything, a text and an object texts only. -/
def HasMembers : (container item : Value) → Prop
  | .array _, _ | .string _, .string _ | .object _, .string _ => True
  | _, _ => False

theorem contains_eq_error_iff {container item : Value} {fault : EvaluationFault} :
    contains container item = .error fault ↔
      ¬ HasMembers container item ∧ fault = .unsupportedMember item container := by
  unfold contains HasMembers
  split <;> simp_all [eq_comm]

theorem attributeValue_eq_error_iff {name : String} {value : Value} {attributes : List String}
    {fault : EvaluationFault} :
    attributeValue name value attributes = .error fault ↔
      ∃ before field after inner, attributes = before ++ field :: after ∧
        before.foldlM Value.field? value = some inner ∧ inner.field? field = none ∧
        fault = .missingAttribute name field := by
  induction attributes generalizing value with
  | nil => simp [attributeValue]
  | cons first rest ih =>
    rw [attributeValue]
    cases hfirst : value.field? first with
    | none =>
      constructor
      · intro h
        cases h
        exact ⟨[], first, rest, value, rfl, rfl, hfirst, rfl⟩
      · rintro ⟨_ | ⟨field', before⟩, field, after, inner, heq, hbefore, hfield, rfl⟩
        · obtain ⟨rfl, -⟩ := List.cons.inj heq
          rfl
        · obtain ⟨rfl, -⟩ := List.cons.inj heq
          simp [List.foldlM_cons, hfirst] at hbefore
    | some next =>
      rw [ih]
      constructor
      · rintro ⟨before, field, after, inner, rfl, hbefore, hfield, rfl⟩
        refine ⟨first :: before, field, after, inner, rfl, ?_, hfield, rfl⟩
        simp [List.foldlM_cons, hfirst, hbefore]
      · rintro ⟨_ | ⟨field', before⟩, field, after, inner, heq, hbefore, hfield, rfl⟩
        · obtain ⟨rfl, -⟩ := List.cons.inj heq
          cases hbefore
          rw [hfirst] at hfield
          cases hfield
        · obtain ⟨rfl, rfl⟩ := List.cons.inj heq
          refine ⟨before, field, after, inner, rfl, ?_, hfield, rfl⟩
          simpa [List.foldlM_cons, hfirst] using hbefore

theorem Comparison.holds_eq_error_iff {sign : Comparison} {item container : Value}
    {fault : EvaluationFault} :
    sign.holds item container = .error fault ↔
      (sign = .member ∨ sign = .notMember) ∧ ¬ HasMembers container item ∧
        fault = .unsupportedMember item container := by
  cases sign <;> simp [Comparison.holds, map_eq_error_iff, contains_eq_error_iff]

/-- The fault is what the evaluation of the expression ends with. Operands are evaluated from the
left, and the right one of a connective only if the left one does not decide. -/
inductive Fails (names : Namespace) : Expression → EvaluationFault → Prop
  | emptyName : Fails names (.name []) .emptyName
  | undefinedName {name attributes} (h : names name = none) :
      Fails names (.name (name :: attributes)) (.undefinedName name)
  | missingAttribute {name before field after value inner} (hname : names name = some value)
      (hbefore : before.foldlM Value.field? value = some inner) (h : inner.field? field = none) :
      Fails names (.name (name :: (before ++ field :: after))) (.missingAttribute name field)
  | unsupportedMember {sign left right item container}
      (hsign : sign = .member ∨ sign = .notMember) (hleft : evaluate names left = .ok item)
      (hright : evaluate names right = .ok container) (h : ¬ HasMembers container item) :
      Fails names (.compare sign left right) (.unsupportedMember item container)
  | item {before item after fault}
      (hbefore : ∀ other ∈ before, ∃ value, evaluate names other = .ok value)
      (h : Fails names item fault) : Fails names (.list (before ++ item :: after)) fault
  | not {inner fault} (h : Fails names inner fault) : Fails names (.not inner) fault
  | andLeft {left right fault} (h : Fails names left fault) : Fails names (.and left right) fault
  | andRight {left right value fault} (hleft : evaluate names left = .ok value)
      (htrue : value.isTruthy) (h : Fails names right fault) : Fails names (.and left right) fault
  | orLeft {left right fault} (h : Fails names left fault) : Fails names (.or left right) fault
  | orRight {left right value fault} (hleft : evaluate names left = .ok value)
      (hfalse : ¬ value.isTruthy) (h : Fails names right fault) : Fails names (.or left right) fault
  | compareLeft {sign left right fault} (h : Fails names left fault) :
      Fails names (.compare sign left right) fault
  | compareRight {sign left right value fault} (hleft : evaluate names left = .ok value)
      (h : Fails names right fault) : Fails names (.compare sign left right) fault

theorem pure_ne_error {α : Type} {value : α} {fault : EvaluationFault} :
    (pure value : Except EvaluationFault α) ≠ .error fault := by
  intro h
  cases h

mutual

theorem fails_of_evaluate {fault : EvaluationFault} : (e : Expression) →
    evaluate names e = .error fault → Fails names e fault
  | .literal constant, h => by
    rw [evaluate] at h
    cases h
  | .name [], h => by
    rw [evaluate] at h
    cases h
    exact .emptyName
  | .name (first :: attributes), h => by
    rw [evaluate, nameValue] at h
    split at h
    · next value hvalue =>
      obtain ⟨before, field, after, inner, rfl, hbefore, hfield, rfl⟩ :=
        attributeValue_eq_error_iff.1 h
      exact .missingAttribute hvalue hbefore hfield
    · next hnone =>
      cases h
      exact .undefinedName hnone
  | .list items, h => by
    rw [evaluate, bind_pure_eq_error_iff] at h
    obtain ⟨before, item, after, rfl, hbefore, hitem⟩ := fails_of_evaluateItems items h
    exact .item hbefore hitem
  | .not inner, h => by
    rw [evaluate, bind_pure_eq_error_iff] at h
    exact .not (fails_of_evaluate inner h)
  | .and left right, h => by
    rw [evaluate, bind_eq_error_iff] at h
    obtain h | ⟨value, hleft, h⟩ := h
    · exact .andLeft (fails_of_evaluate left h)
    · split at h
      · next htrue =>
        rw [bind_pure_eq_error_iff] at h
        exact .andRight hleft htrue (fails_of_evaluate right h)
      · exact absurd h pure_ne_error
  | .or left right, h => by
    rw [evaluate, bind_eq_error_iff] at h
    obtain h | ⟨value, hleft, h⟩ := h
    · exact .orLeft (fails_of_evaluate left h)
    · split at h
      · exact absurd h pure_ne_error
      · next hfalse =>
        rw [bind_pure_eq_error_iff] at h
        exact .orRight hleft hfalse (fails_of_evaluate right h)
  | .compare sign left right, h => by
    rw [evaluate, bind_eq_error_iff] at h
    obtain h | ⟨item, hleft, h⟩ := h
    · exact .compareLeft (fails_of_evaluate left h)
    · rw [bind_eq_error_iff] at h
      obtain h | ⟨container, hright, h⟩ := h
      · exact .compareRight hleft (fails_of_evaluate right h)
      · rw [bind_pure_eq_error_iff] at h
        obtain ⟨hsign, hmembers, rfl⟩ := Comparison.holds_eq_error_iff.1 h
        exact .unsupportedMember hsign hleft hright hmembers

theorem fails_of_evaluateItems {fault : EvaluationFault} : (items : List Expression) →
    evaluateItems names items = .error fault →
    ∃ before item after, items = before ++ item :: after ∧
      (∀ other ∈ before, ∃ value, evaluate names other = .ok value) ∧ Fails names item fault
  | [], h => by
    rw [evaluateItems] at h
    cases h
  | item :: items, h => by
    rw [evaluateItems, bind_eq_error_iff] at h
    obtain h | ⟨value, hvalue, h⟩ := h
    · exact ⟨[], item, items, rfl, by simp, fails_of_evaluate item h⟩
    · rw [bind_pure_eq_error_iff] at h
      obtain ⟨before, other, after, rfl, hbefore, hother⟩ := fails_of_evaluateItems items h
      exact ⟨item :: before, other, after, rfl,
        List.forall_mem_cons.2 ⟨⟨value, hvalue⟩, hbefore⟩, hother⟩

end

theorem evaluateItems_append_eq_error {before after : List Expression} {item : Expression}
    {fault : EvaluationFault}
    (hbefore : ∀ other ∈ before, ∃ value, evaluate names other = .ok value)
    (hitem : evaluate names item = .error fault) :
    evaluateItems names (before ++ item :: after) = .error fault := by
  induction before with
  | nil =>
    rw [List.nil_append, evaluateItems, hitem]
    rfl
  | cons first before ih =>
    obtain ⟨⟨value, hvalue⟩, hbefore⟩ := List.forall_mem_cons.1 hbefore
    rw [List.cons_append, evaluateItems, hvalue, ih hbefore]
    rfl

theorem Fails.evaluate_eq_error {e : Expression} {fault : EvaluationFault}
    (h : Fails names e fault) : evaluate names e = .error fault := by
  induction h with
  | emptyName => rw [evaluate, nameValue]
  | undefinedName h => rw [evaluate, nameValue, h]
  | missingAttribute hname hbefore h =>
    rw [evaluate, nameValue, hname]
    exact attributeValue_eq_error_iff.2 ⟨_, _, _, _, rfl, hbefore, h, rfl⟩
  | @unsupportedMember sign left right item container hsign hleft hright h =>
    have hholds : sign.holds item container = .error (.unsupportedMember item container) :=
      Comparison.holds_eq_error_iff.2 ⟨hsign, h, rfl⟩
    rw [evaluate, hleft, hright]
    change (sign.holds item container >>= _) = _
    rw [hholds]
    rfl
  | item hbefore _ ih => rw [evaluate, evaluateItems_append_eq_error hbefore ih]; rfl
  | not _ ih | andLeft _ ih | orLeft _ ih | compareLeft _ ih =>
    rw [evaluate, ih]
    rfl
  | andRight hleft htrue _ ih =>
    rw [evaluate, hleft, ih]
    exact if_pos htrue
  | orRight hleft hfalse _ ih =>
    rw [evaluate, hleft, ih]
    exact if_neg hfalse
  | compareRight hleft _ ih =>
    rw [evaluate, hleft, ih]
    rfl

theorem evaluate_eq_error_iff_fails {e : Expression} {fault : EvaluationFault} :
    evaluate names e = .error fault ↔ Fails names e fault :=
  ⟨fails_of_evaluate e, Fails.evaluate_eq_error⟩

theorem holds_eq_error_iff_fails {condition : Condition} {fault : EvaluationFault} :
    condition.holds names = .error fault ↔ Fails names condition.expression fault := by
  rw [← evaluate_eq_error_iff_fails, Condition.holds, bind_pure_eq_error_iff]

/-- What fails for an empty name has one. -/
theorem Fails.nil_mem_paths {e : Expression} (h : Fails names e .emptyName) : [] ∈ e.paths := by
  generalize hfault : EvaluationFault.emptyName = fault at h
  induction h with
  | emptyName => exact List.mem_singleton_self _
  | undefinedName | missingAttribute | unsupportedMember => cases hfault
  | @item before item after _ _ _ ih =>
    rw [paths, pathsOfItems_eq, List.mem_flatMap]
    exact ⟨item, by simp, ih hfault⟩
  | not _ ih => exact ih hfault
  | andLeft _ ih | orLeft _ ih | compareLeft _ ih => exact List.mem_append_left _ (ih hfault)
  | andRight _ _ _ ih | orRight _ _ _ ih | compareRight _ _ ih =>
    exact List.mem_append_right _ (ih hfault)

theorem head?_append_literal {before after : String} {c : Char}
    (h : before.toList.head? = some c) : (before ++ after).toList.head? = some c := by
  rw [String.toList_append, List.head?_append, h, Option.some_or]

theorem EvaluationFault.message_ne_empty_name {fault : EvaluationFault} (h : fault ≠ .emptyName) :
    fault.message ≠ "empty name" := by
  have hhead : fault.message.toList.head? ≠ some 'e' := by
    cases fault with
    | emptyName => exact absurd rfl h
    | undefinedName name =>
      change ("name '" ++ name ++ "' is not defined").toList.head? ≠ _
      rw [String.append_assoc, head?_append_literal (c := 'n') rfl]
      decide
    | missingAttribute name field =>
      change ("'" ++ name ++ "' has no attribute '" ++ field ++ "'").toList.head? ≠ _
      rw [String.append_assoc, String.append_assoc, String.append_assoc,
        head?_append_literal (c := '\'') rfl]
      decide
    | unsupportedMember item container =>
      change ("unsupported operand types for 'in': " ++ item.json ++ " and "
        ++ container.json).toList.head? ≠ _
      rw [String.append_assoc, String.append_assoc, head?_append_literal (c := 'u') rfl]
      decide
  intro hmessage
  exact hhead (hmessage ▸ rfl)

/-! ## Conditions that are read -/

/-- A condition that has a truth value keeps it when names are added, and depends on nothing but the
first words of its names. Its names are never empty, so it fails for an undefined name, a missing
attribute or a value that is asked for members and has none, and not for an empty name. -/
theorem holds_of_names {source : String} {condition : Condition}
    (h : parse source = .ok condition) :
    (∀ (names names' : Namespace) (holds : Bool),
      (∀ word value, names word = some value → names' word = some value) →
      condition.holds names = .ok holds → condition.holds names' = .ok holds) ∧
    (∀ names names' : Namespace, (∀ word ∈ condition.expression.names, names word = names' word) →
      condition.holds names = condition.holds names') ∧
    (∀ (names : Namespace) (fault : EvaluationFault),
      condition.holds names = .error fault ↔ Fails names condition.expression fault) ∧
    (∀ path ∈ condition.expression.paths, path ≠ [] ∧ ∀ word ∈ path, isName word) ∧
    ∀ (names : Namespace) (fault : EvaluationFault),
      condition.holds names = .error fault →
        fault ≠ .emptyName ∧ fault.message ≠ "empty name" := by
  have hpaths : ∀ path ∈ condition.expression.paths, path ≠ [] ∧ ∀ word ∈ path, isName word := by
    obtain ⟨⟨ts, hts, hexpression⟩, -⟩ := parse_eq_ok_iff.1 h
    have hwell := (derives_of_ofTokens hexpression).wellFormed (wellFormed_of_tokens hts)
    exact hwell.isName_of_mem_paths
  refine ⟨?_, ?_, fun _ _ => holds_eq_error_iff_fails, hpaths, ?_⟩
  · intro names names' holds hextends hholds
    have hgrows : Grows condition.expression.names names names' := by
      intro word _
      cases hword : names word with
      | none => exact .inl rfl
      | some value => exact .inr (hextends word value hword).symm
    exact (holds_of_grows hgrows).eq_of_ok hholds
  · intro names names' hagree
    have hgrows : Grows condition.expression.names names names' :=
      fun word hword => .inr (hagree word hword)
    apply (holds_of_grows hgrows).eq_of_forall_not
    rintro word ⟨hword, hne⟩
    exact hne (hagree word hword)
  · intro names fault hfault
    have hne : fault ≠ .emptyName := by
      rintro rfl
      exact (hpaths [] (holds_eq_error_iff_fails.1 hfault).nil_mem_paths).1 rfl
    exact ⟨hne, EvaluationFault.message_ne_empty_name hne⟩

/-- The right operand need not have a value as long as the left one decides. -/
theorem holds_of_names_undecided :
    let e : Expression := .or (.compare .equal (.name ["x"]) (.literal (.integer 1)))
      (.name ["y", "z"])
    let condition : Condition := ⟨"x == 1 or y . z", e⟩
    let names : Namespace := fun word => if word = "x" then some (.number (.integer 1)) else none
    let names' : Namespace := fun word => if word = "y" then some (.bool false) else names word
    parse "x == 1 or y . z" = .ok condition ∧ condition.holds names = .ok true ∧
      condition.holds names' = .ok true := by
  intro e condition names names'
  have hwell : e.WellFormed := by
    refine .or (.compare (.name ?_ ?_) (.literal ⟨by decide, by decide⟩)) (.name ?_ ?_) <;> decide
  have hsource : "x == 1 or y . z".toList = spell (fun _ => .single) e.tokens := by
    decide +kernel
  have hread : Condition.tokens "x == 1 or y . z".toList = .ok e.tokens := by
    rw [hsource]
    exact tokens_spell _ hwell.tokens
  have hparse : parse "x == 1 or y . z" = .ok condition :=
    parse_of_derives hread ((derives_tokens hwell).loosen (Nat.zero_le _) e.level_ne_items)
  have hholds : condition.holds names = .ok true := rfl
  refine ⟨hparse, hholds, (holds_of_names hparse).1 names names' true ?_ hholds⟩
  intro word value hword
  by_cases hy : word = "y"
  · subst hy
    cases hword
  · exact (if_neg hy).trans hword

end Stencil.Condition
