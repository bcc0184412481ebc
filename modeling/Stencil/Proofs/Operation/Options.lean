import Stencil.Execution
import Stencil.Proofs.Operation.Document

/-!
# Options of selections

A selection that is read has the texts of the mapping under `options`. Keys that differ as values
may have one text, such as `1` and `'1'`; the last of them counts then, and nothing is refused
(`options_of_read`). So no option is lost exactly if entries of one key text agree on the operation.
-/

namespace Stencil

namespace Entries

variable {κ : Type u} {α : Type v} [DecidableEq κ]

theorem lookup_eq (key : κ) (pairs : List (κ × α)) : lookup key pairs = pairs.lookup key := by
  induction pairs with
  | nil => rfl
  | cons pair pairs ih =>
    rw [lookup, List.lookup_cons, ih]
    by_cases hkey : pair.1 = key
    · rw [if_pos hkey, beq_iff_eq.2 hkey.symm]
    · rw [if_neg hkey, beq_eq_false_iff_ne.2 (Ne.symm hkey)]

theorem find?_insertAll_reverse (entries : Entries κ α) (pairs : List (κ × α)) (key : κ) :
    (entries.insertAll pairs).find? key = (pairs.reverse.lookup key).or (entries.find? key) := by
  induction pairs generalizing entries with
  | nil => rfl
  | cons pair pairs ih =>
    have hinsert : (entries.insertAll (pair :: pairs)).find? key =
        (pairs.reverse.lookup key).or ((entries.insert pair.1 pair.2).find? key) := ih _
    rw [hinsert, List.reverse_cons, List.lookup_append, Option.or_assoc, ← lookup_eq key [pair]]
    congr 1
    by_cases hkey : pair.1 = key
    · rw [← hkey, find?_insert_self, lookup, if_pos rfl, Option.some_or]
    · rw [find?_insert_of_ne _ _ (Ne.symm hkey), lookup, if_neg hkey, lookup, Option.none_or]

/-- What is found under a key is the value of the last pair with the key. -/
theorem find?_ofList_eq_some_iff {pairs : List (κ × α)} {key : κ} {value : α} :
    (ofList pairs).find? key = some value ↔
      ∃ before after, pairs = before ++ (key, value) :: after ∧ ∀ pair ∈ after, pair.1 ≠ key := by
  rw [ofList, find?_insertAll_reverse, find?_empty, Option.or_none, List.lookup_eq_some_iff]
  constructor
  · rintro ⟨after, before, heq, hafter⟩
    refine ⟨before.reverse, after.reverse, ?_, ?_⟩
    · rw [List.reverse_eq_iff.1 heq, List.reverse_append, List.reverse_cons, List.append_assoc,
        List.singleton_append]
    · intro pair hpair
      exact Ne.symm (bne_iff_ne.1 (hafter pair (List.mem_reverse.1 hpair)))
  · rintro ⟨before, after, rfl, hafter⟩
    refine ⟨after.reverse, before.reverse, ?_, ?_⟩
    · rw [List.reverse_append, List.reverse_cons, List.append_assoc, List.singleton_append]
    · intro pair hpair
      exact bne_iff_ne.2 (Ne.symm (hafter pair (List.mem_reverse.1 hpair)))

theorem exists_find?_ofList {pairs : List (κ × α)} {pair : κ × α} (h : pair ∈ pairs) :
    ∃ value, (ofList pairs).find? pair.1 = some value := by
  rw [← Option.ne_none_iff_exists', ofList, find?_insertAll_reverse, find?_empty, Option.or_none]
  intro hnone
  rw [List.lookup_eq_none_iff] at hnone
  exact bne_iff_ne.1 (hnone pair (List.mem_reverse.2 h)) rfl

end Entries

namespace Yaml.Value

theorem pairTexts?_eq_some_iff {pair : Value × Value} {key text : String} :
    pairTexts? pair = some (key, text) ↔ pair.1.text? = some key ∧ pair.2.text? = some text := by
  rw [pairTexts?]
  cases pair.1.text? <;> cases pair.2.text? <;> simp

/-- The entry is the last one of the text of its key, and these are the texts of its key and
value. -/
def IsLast (pairs : List (Value × Value)) (key text : String) : Prop :=
  ∃ before pair after, pairs = before ++ pair :: after ∧ pairTexts? pair = some (key, text) ∧
    ∀ other ∈ after, other.1.text? ≠ some key

variable {pairs : List (Value × Value)} {texts : List (String × String)}

theorem forall_text?_ne_iff (h : pairs.map pairTexts? = texts.map some) {key : String} :
    (∀ pair ∈ pairs, pair.1.text? ≠ some key) ↔ ∀ entry ∈ texts, entry.1 ≠ key := by
  have hmem := @mem_iff_of_mapM _ _ _ _ _ (mapM_eq_some_iff.2 h)
  constructor
  · intro hne entry hentry heq
    obtain ⟨pair, hpair, htexts⟩ := hmem.1 hentry
    apply hne pair hpair
    rw [(pairTexts?_eq_some_iff.1 htexts).1, heq]
  · intro hne pair hpair heq
    have htexts : pairTexts? pair ∈ texts.map some := by
      rw [← h]
      exact List.mem_map_of_mem hpair
    obtain ⟨entry, hentry, heq'⟩ := List.mem_map.1 htexts
    have hkey := (pairTexts?_eq_some_iff.1 heq'.symm).1
    rw [heq] at hkey
    exact hne entry hentry (Option.some.inj hkey).symm

theorem find?_eq_some_iff_isLast (h : pairs.mapM pairTexts? = some texts) {key text : String} :
    (Entries.ofList texts).find? key = some text ↔ IsLast pairs key text := by
  have hmap := mapM_eq_some_iff.1 h
  rw [Entries.find?_ofList_eq_some_iff]
  constructor
  · rintro ⟨before, after, rfl, hafter⟩
    rw [List.map_append, List.map_cons] at hmap
    obtain ⟨first, rest, rfl, -, hrest⟩ := List.map_eq_append_iff.1 hmap
    obtain ⟨pair, later, rfl, hpair, hlater⟩ := List.map_eq_cons_iff.1 hrest
    exact ⟨first, pair, later, rfl, hpair, (forall_text?_ne_iff hlater).2 hafter⟩
  · rintro ⟨before, pair, after, rfl, hpair, hafter⟩
    rw [List.map_append, List.map_cons, hpair] at hmap
    obtain ⟨first, rest, rfl, -, hrest⟩ := List.map_eq_append_iff.1 hmap.symm
    obtain ⟨entry, later, rfl, hentry, hlater⟩ := List.map_eq_cons_iff.1 hrest
    cases hentry
    exact ⟨first, later, rfl, (forall_text?_ne_iff hlater.symm).1 hafter⟩

/-- No option is lost exactly if entries of one key text have one value text. -/
theorem forall_find?_iff (h : pairs.mapM pairTexts? = some texts) :
    (∀ pair ∈ pairs, ∀ key text, pairTexts? pair = some (key, text) →
      (Entries.ofList texts).find? key = some text) ↔
      ∀ pair ∈ pairs, ∀ other ∈ pairs, pair.1.text? = other.1.text? →
        pair.2.text? = other.2.text? := by
  constructor
  · intro hfind pair hpair other hother hkey
    have hsome := exists_mapM_eq_some_iff.1 ⟨texts, h⟩
    obtain ⟨⟨key, text⟩, htexts⟩ := Option.isSome_iff_exists.1 (hsome pair hpair)
    obtain ⟨⟨key', text'⟩, htexts'⟩ := Option.isSome_iff_exists.1 (hsome other hother)
    have hfound := hfind pair hpair key text htexts
    have hfound' := hfind other hother key' text' htexts'
    rw [pairTexts?_eq_some_iff] at htexts htexts'
    rw [htexts.1, htexts'.1] at hkey
    rw [htexts.2, htexts'.2, ← hfound, ← hfound', Option.some.inj hkey]
  · intro hagree pair hpair key text htexts
    obtain ⟨text', hfind⟩ :=
      Entries.exists_find?_ofList ((mem_iff_of_mapM h).2 ⟨pair, hpair, htexts⟩)
    obtain ⟨before, last, after, heq, hlast, -⟩ := (find?_eq_some_iff_isLast h).1 hfind
    have hmem : last ∈ pairs := by
      rw [heq]
      exact List.mem_append_right before List.mem_cons_self
    rw [pairTexts?_eq_some_iff] at htexts hlast
    have hagrees := hagree pair hpair last hmem (by rw [htexts.1, hlast.1])
    rw [htexts.2, hlast.2] at hagrees
    rw [hfind, hagrees]

end Yaml.Value

namespace Execution

/-- A selection runs the operation of the option that the text of its input is. -/
theorem perform_selection {environment : Environment} {target : Path}
    {identifier input word reference : String} {options : Entries String String}
    {default : Option String} {state : State} (run : String → Run Bool)
    (hword : (state.scopes.get? input).bind Value.text? = some word)
    (hfind : options.find? word = some reference) :
    (perform environment target identifier (.selection input options default)
      fun reference _ => run reference).run.run state =
      (discard (run reference)).run.run state := by
  have hselected : selected? options default ((state.scopes.get? input).bind Value.text?) =
      some reference := by
    rw [hword, selected?, Option.bind_some, hfind, Option.some_or]
  have hscopes : Run.scopes.run.run state = (.ok state.scopes, state) := rfl
  rw [perform, bind_run, hscopes]
  dsimp only
  split
  · next other hother =>
    rw [hselected] at hother
    cases hother
    rfl
  · next hnone =>
    rw [hselected] at hnone
    cases hnone

/-- Whenever the input has the text, the operation runs the reference and nothing else. -/
def Selects (operation : Operation) (input word reference : String) : Prop :=
  ∀ (environment : Environment) (target : Path) (run : String → Run Bool) (state : State),
    (state.scopes.get? input).bind Value.text? = some word →
      (perform environment target operation.identifier operation.kind
        fun reference _ => run reference).run.run state =
        (discard (run reference)).run.run state

end Execution

namespace Operation

variable {document : Document}

/-- What a selection selects by was read from the mapping under `options`. -/
theorem exists_pairs_of_readKind {category : Category} {kind : Kind} {modifiers : List Modifier}
    {input : String} {options : Entries String String} {default : Option String}
    (hread : readKind document category = .ok kind)
    (hkind : kind.withModifiers modifiers = .selection input options default) :
    ∃ pairs texts, Yaml.Value.given? document.fields "options" = some (.mapping pairs) ∧
      pairs.mapM Yaml.Value.pairTexts? = some texts ∧ options = .ofList texts := by
  cases category with
  | group =>
    obtain ⟨operations, -, rfl⟩ := readKind_group_eq_ok_iff.1 hread
    cases hkind
  | sequence =>
    obtain ⟨input, operations, placeholder, fallback, -, -, -, -, rfl⟩ :=
      readKind_sequence_eq_ok_iff.1 hread
    cases hkind
  | template =>
    obtain ⟨file, placeholders, fallback, -, -, -, rfl⟩ := readKind_template_eq_ok_iff.1 hread
    cases hkind
  | selection =>
    obtain ⟨input, options, default, -, hoptions, hfull, -, rfl⟩ :=
      readKind_selection_eq_ok_iff.1 hread
    cases hkind
    obtain ⟨entries | _, hentries, rfl⟩ := Document.entries_eq_ok_iff.1 hoptions
    · cases hfull
    · obtain ⟨value, hvalue, hread⟩ :=
        Option.bind_eq_some_iff.1 (Document.map_eq_some_iff_bind.1 hentries)
      cases value with
      | mapping pairs =>
        obtain ⟨texts, htexts, heq⟩ := Option.map_eq_some_iff.1 hread
        exact ⟨pairs, texts, hvalue, htexts, heq.symm⟩
      | _ => cases hread

/-- The options of a selection are the last entries of their key texts, those run, and no entry is
lost exactly if entries of one key text agree. -/
theorem options_of_read {value : Yaml.Value} {operation : Operation} {input : String}
    {options : Entries String String} {default : Option String}
    (hread : read value = .ok operation)
    (hkind : operation.kind = .selection input options default) :
    ∃ fields pairs, value = .mapping fields ∧
      Yaml.Value.given? fields "options" = some (.mapping pairs) ∧
      (∀ key text, options.find? key = some text ↔ Yaml.Value.IsLast pairs key text) ∧
      (∀ key text, Yaml.Value.IsLast pairs key text →
        Execution.Selects operation input key text) ∧
      ((∀ pair ∈ pairs, ∀ key text, Yaml.Value.pairTexts? pair = some (key, text) →
        options.find? key = some text) ↔
        ∀ pair ∈ pairs, ∀ other ∈ pairs, pair.1.text? = other.1.text? →
          pair.2.text? = other.2.text?) := by
  obtain ⟨fields, keys, identifier, rfl, -, -, -, -, hread⟩ := read_eq_ok_iff.1 hread
  obtain ⟨category, kind, condition, names, modifiers, -, -, hreadKind, -, -, -, rfl⟩ :=
    readDocument_eq_ok_iff.1 hread
  obtain ⟨pairs, texts, hgiven, htexts, rfl⟩ := exists_pairs_of_readKind hreadKind hkind
  refine ⟨fields, pairs, rfl, hgiven, fun _ _ => Yaml.Value.find?_eq_some_iff_isLast htexts, ?_,
    Yaml.Value.forall_find?_iff htexts⟩
  intro key text hlast environment target run state hword
  have hfind := (Yaml.Value.find?_eq_some_iff_isLast htexts).2 hlast
  generalize kind.withModifiers modifiers = kind at hkind ⊢
  subst hkind
  exact Execution.perform_selection run hword hfind

/-- The document of a selection by `x`. -/
def selectionOf (pairs : List (Yaml.Value × Yaml.Value)) : Yaml.Value :=
  .mapping [(.string "identifier", .string "s"), (.string "type", .string "selection"),
    (.string "input", .string "x"), (.string "options", .mapping pairs)]

/-- Options for a truth value and a number. -/
def flagOrTwo : List (Yaml.Value × Yaml.Value) :=
  [(.bool true, .string "yes"), (.number (.integer 2), .string "two")]

theorem options_of_read_flagOrTwo :
    ∃ operation options, read (selectionOf flagOrTwo) = .ok operation ∧
      operation.kind = .selection "x" options none ∧
      ∀ pair ∈ flagOrTwo, ∀ key text, Yaml.Value.pairTexts? pair = some (key, text) →
        options.find? key = some text ∧ Execution.Selects operation "x" key text := by
  have hread : read (selectionOf flagOrTwo) =
      .ok ⟨"s", none, .selection "x" ⟨[("true", "yes"), ("2", "two")], by decide⟩ none⟩ := rfl
  refine ⟨_, _, hread, rfl, ?_⟩
  obtain ⟨fields, pairs, hfields, hpairs, hlast, hselects, hkept⟩ := options_of_read hread rfl
  cases hfields
  cases hpairs
  intro pair hpair key text htexts
  have hfind := hkept.2 (by decide) pair hpair key text htexts
  exact ⟨hfind, hselects key text ((hlast key text).1 hfind)⟩

/-- The keys `1` and `'1'` differ, but the selection that is read has one option. -/
theorem option_lost_of_one_text :
    ∃ pairs operation options, Yaml.Value.hasDistinctKeys pairs = true ∧
      read (selectionOf pairs) = .ok operation ∧
      operation.kind = .selection "x" options none ∧
      ∃ pair ∈ pairs, Yaml.Value.pairTexts? pair = some ("1", "a") ∧
        options.find? "1" = some "b" :=
  ⟨[(.number (.integer 1), .string "a"), (.string "1", .string "b")],
    ⟨"s", none, .selection "x" ⟨[("1", "b")], by decide⟩ none⟩, _, rfl, rfl, rfl, _,
    List.mem_cons_self, rfl, rfl⟩

end Operation

end Stencil
