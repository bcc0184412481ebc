import Mathlib.Logic.Relation
import Stencil.Proofs.Path
import Stencil.Proofs.Text.Lines

/-!
# Spellings of a path

A path may be written in several ways: a slash may be written several times, a step to where the way
already is may stand between slashes, and a slash may stand at the end. Two paths are told apart
exactly if none of this makes one out of the other (`key_eq_iff_respelled`).

Each part of a text behind the first that is not empty and no full stop is a component, so the text
can be respelled as its first part and these (`respelled_spelling`), which the key tells.
-/

namespace Stencil.Path

/-- The second text spells the path of the first with less. -/
inductive Shortens : List Char → List Char → Prop
  /-- One slash is enough. -/
  | slash (before after : List Char) :
    Shortens (before ++ '/' :: '/' :: after) (before ++ '/' :: after)
  /-- A step to where the way already is leads nowhere. -/
  | current (before after : List Char) :
    Shortens (before ++ '/' :: '.' :: '/' :: after) (before ++ '/' :: after)
  /-- A slash at the end needs not be there. -/
  | closing (text : List Char) : text ≠ [] → Shortens (text ++ ['/']) text

/-- The texts spell the same path. -/
def Respelled : List Char → List Char → Prop :=
  Relation.EqvGen Shortens

namespace Respelled

variable {text text' text'' : List Char}

theorem of_shortens (h : Shortens text text') : Respelled text text' :=
  .rel _ _ h

theorem refl (text : List Char) : Respelled text text :=
  Relation.EqvGen.refl text

theorem symm (h : Respelled text text') : Respelled text' text :=
  Relation.EqvGen.symm _ _ h

theorem trans (h : Respelled text text') (h' : Respelled text' text'') : Respelled text text'' :=
  Relation.EqvGen.trans _ _ _ h h'

end Respelled

/-! ## Parts of a text -/

/-- Whether a part of a path leads on. -/
def leadsOn (part : List Char) : Bool :=
  part ≠ [] && part ≠ ['.']

/-- The text of parts, each behind a slash. -/
def spell (parts : List (List Char)) : List Char :=
  parts.flatMap ('/' :: ·)

@[simp] theorem spell_nil : spell [] = [] := rfl

@[simp] theorem spell_cons (part : List Char) (parts : List (List Char)) :
    spell (part :: parts) = '/' :: (part ++ spell parts) :=
  List.flatMap_cons

theorem join_eq_spell (first : List Char) (parts : List (List Char)) :
    Text.join ['/'] (first :: parts) = first ++ spell parts := by
  induction parts generalizing first with
  | nil => exact (List.append_nil first).symm
  | cons part parts ih =>
    rw [Text.join_cons _ _ (List.cons_ne_nil _ _), ih, spell_cons]
    rfl

/-- A part that leads nowhere may be left out behind a text. -/
theorem respelled_of_not_leadsOn {text part : List Char} (htext : text ≠ [])
    (hpart : leadsOn part = false) (parts : List (List Char)) :
    Respelled (text ++ spell (part :: parts)) (text ++ spell parts) := by
  have hclosing : Respelled (text ++ ['/']) text := .of_shortens (.closing text htext)
  have hcases : part = [] ∨ part = ['.'] := by
    by_contra h
    rw [not_or] at h
    simp [leadsOn, h.1, h.2] at hpart
  cases parts with
  | nil =>
    rw [spell_cons, spell_nil, List.append_nil, List.append_nil]
    rcases hcases with rfl | rfl
    · exact hclosing
    · -- A full stop at the end gets a slash, so that it may go.
      have hdot : Respelled (text ++ ['/', '.'] ++ ['/']) (text ++ ['/', '.']) :=
        .of_shortens (.closing _ (List.append_ne_nil_of_right_ne_nil _ (List.cons_ne_nil _ _)))
      rw [List.append_assoc] at hdot
      exact hdot.symm.trans ((Respelled.of_shortens (.current text [])).trans hclosing)
  | cons next parts =>
    rw [spell_cons, spell_cons]
    rcases hcases with rfl | rfl
    · exact .of_shortens (.slash text _)
    · exact .of_shortens (.current text _)

/-- Behind a text only the parts that lead on count. -/
theorem respelled_filter {text : List Char} (htext : text ≠ []) (parts : List (List Char)) :
    Respelled (text ++ spell parts) (text ++ spell (parts.filter leadsOn)) := by
  induction parts generalizing text with
  | nil => exact .refl _
  | cons part parts ih =>
    cases hpart : leadsOn part with
    | true =>
      rw [List.filter_cons_of_pos hpart]
      have hrest := @ih (text ++ '/' :: part) (List.append_ne_nil_of_left_ne_nil htext _)
      rw [spell_cons, spell_cons]
      simpa only [List.append_assoc, List.cons_append] using hrest
    | false =>
      rw [List.filter_cons_of_neg (by simp [hpart])]
      exact (respelled_of_not_leadsOn htext hpart parts).trans (ih htext)

/-! ## Keys -/

/-- The step that a part of a path is. -/
def stepOf (part : List Char) : Step :=
  .ofText (String.ofList part)

theorem stepOf_injective : Function.Injective stepOf := by
  intro part part' h
  apply String.ofList_injective
  grind [stepOf, Step.ofText]

theorem stepOf_eq_current_iff {part : List Char} : stepOf part = .current ↔ part = ['.'] := by
  have hdot : stepOf ['.'] = .current := rfl
  rw [← hdot]
  exact stepOf_injective.eq_iff

theorem filter_map_stepOf (parts : List (List Char)) :
    ((parts.filter fun part => !part.isEmpty).map stepOf).filter (· ≠ .current) =
      (parts.filter leadsOn).map stepOf := by
  rw [List.filter_map, List.filter_filter]
  refine congrArg _ (List.filter_congr fun part _ => ?_)
  simp only [Function.comp_apply, ne_eq, stepOf_eq_current_iff, leadsOn]
  cases part <;> simp

section parts

variable {path : Path} {first : List Char} {parts : List (List Char)}
  (hcut : Text.cut '/' path.text.toList = first :: parts)

include hcut

theorem isAbsolute_iff_of_cut : path.isAbsolute = true ↔ first = [] ∧ parts ≠ [] := by
  have htext := Text.join_cut '/' path.text.toList
  rw [hcut, join_eq_spell] at htext
  rw [isAbsolute, decide_eq_true_eq, ← htext]
  cases first with
  | nil => cases parts <;> simp
  | cons c first =>
    have hslash : '/' ∉ c :: first := Text.not_mem_of_mem_cut _ (hcut ▸ List.mem_cons_self)
    simp only [List.cons_append, List.head?_cons, Option.some.injEq, reduceCtorEq, false_and,
      iff_false]
    rintro rfl
    exact hslash List.mem_cons_self

/-- A text that starts nowhere and not at the root is empty. -/
theorem eq_nil_of_not_isAbsolute (habsolute : path.isAbsolute = false) (hfirst : first = []) :
    parts = [] := by
  rw [← Bool.not_eq_true, isAbsolute_iff_of_cut hcut, not_and, not_not] at habsolute
  exact habsolute hfirst

theorem isAbsolute_of_ne_nil (hfirst : first ≠ []) : path.isAbsolute = false := by
  rw [← Bool.not_eq_true, isAbsolute_iff_of_cut hcut]
  exact fun h => hfirst h.1

theorem written_of_cut :
    path.written = (if first = [] then [] else [stepOf first]) ++
      (parts.filter fun part => !part.isEmpty).map stepOf := by
  rw [written_eq, stepsOf, hcut]
  cases first <;> rfl

/-- The first part counts if it is not empty, be it a full stop; the others if they lead on. -/
theorem components_of_cut :
    path.components =
      (if first = [] then [] else [stepOf first]) ++ (parts.filter leadsOn).map stepOf := by
  have hwritten := written_of_cut hcut
  have hparts := filter_map_stepOf parts
  unfold components
  split
  · next rest habsolute hcurrent =>
    rw [hwritten] at hcurrent
    by_cases hfirst : first = []
    · rw [if_pos hfirst, eq_nil_of_not_isAbsolute hcut habsolute hfirst] at hcurrent
      cases hcurrent
    · rw [if_neg hfirst] at hcurrent ⊢
      obtain ⟨hstep, rfl⟩ := List.cons.inj hcurrent
      rw [hstep]
      exact congrArg (Step.current :: ·) hparts
  · next hnot =>
    rw [hwritten, List.filter_append, hparts]
    by_cases hfirst : first = []
    · rw [if_pos hfirst]
      rfl
    · have hstep : stepOf first ≠ .current := by
        intro hstep
        rw [if_neg hfirst, hstep] at hwritten
        exact hnot _ (isAbsolute_of_ne_nil hcut hfirst) hwritten
      rw [if_neg hfirst]
      simp [hstep]

/-- What a path is spelled as with the steps that its key tells, each once behind a slash. -/
theorem respelled_spelling :
    Respelled path.text.toList
      ((if path.isAbsolute then ['/'] else first) ++ spell (parts.filter leadsOn)) := by
  have htext := Text.join_cut '/' path.text.toList
  rw [hcut, join_eq_spell] at htext
  rw [← htext]
  cases habsolute : path.isAbsolute with
  | true =>
    obtain ⟨rfl, hne⟩ := (isAbsolute_iff_of_cut hcut).1 habsolute
    obtain ⟨part, parts, rfl⟩ := List.exists_cons_of_ne_nil hne
    -- The slash at the start is written twice, so that one of them is a text before the other.
    have htwice : Respelled (['/'] ++ spell (part :: parts)) ([] ++ spell (part :: parts)) :=
      .of_shortens (.slash [] (part ++ spell parts))
    exact htwice.symm.trans (respelled_filter (List.cons_ne_nil _ _) _)
  | false =>
    rw [if_neg Bool.false_ne_true]
    by_cases hfirst : first = []
    · rw [eq_nil_of_not_isAbsolute hcut habsolute hfirst]
      exact .refl _
    · exact respelled_filter hfirst parts

end parts

section keys

variable {path path' : Path} {first first' : List Char} {parts parts' : List (List Char)}
  (hcut : Text.cut '/' path.text.toList = first :: parts)
  (hcut' : Text.cut '/' path'.text.toList = first' :: parts')

include hcut hcut'

theorem key_eq_of_filter_eq (hfirst : first = first')
    (hparts : parts.filter leadsOn = parts'.filter leadsOn)
    (hnil : first = [] → (parts = [] ↔ parts' = [])) : path.key = path'.key := by
  subst hfirst
  have habsolute : path.isAbsolute = path'.isAbsolute := by
    rw [Bool.eq_iff_iff, isAbsolute_iff_of_cut hcut, isAbsolute_iff_of_cut hcut']
    exact and_congr_right fun h => not_congr (hnil h)
  rw [key, key, habsolute, components_of_cut hcut, components_of_cut hcut', hparts]

/-- The key tells the first part of a path that does not start at the root, and what leads on. -/
theorem filter_eq_of_key_eq (h : path.key = path'.key) :
    (path.isAbsolute = false → first = first') ∧
      parts.filter leadsOn = parts'.filter leadsOn := by
  obtain ⟨habsolute, hcomponents⟩ := Route.mk.inj h
  rw [components_of_cut hcut, components_of_cut hcut'] at hcomponents
  have hmap := stepOf_injective.list_map
  cases hroot : path.isAbsolute with
  | true =>
    have hfirst := ((isAbsolute_iff_of_cut hcut).1 hroot).1
    have hfirst' := ((isAbsolute_iff_of_cut hcut').1 (habsolute ▸ hroot)).1
    rw [if_pos hfirst, if_pos hfirst'] at hcomponents
    exact ⟨nofun, hmap hcomponents⟩
  | false =>
    have hnil := eq_nil_of_not_isAbsolute hcut hroot
    have hnil' := eq_nil_of_not_isAbsolute hcut' (habsolute ▸ hroot)
    by_cases hfirst : first = []
    · by_cases hfirst' : first' = []
      · rw [hnil hfirst, hnil' hfirst', hfirst, hfirst']
        exact ⟨fun _ => rfl, rfl⟩
      · rw [if_pos hfirst, if_neg hfirst', hnil hfirst] at hcomponents
        cases hcomponents
    · by_cases hfirst' : first' = []
      · rw [if_neg hfirst, if_pos hfirst', hnil' hfirst'] at hcomponents
        cases hcomponents
      · rw [if_neg hfirst, if_neg hfirst'] at hcomponents
        obtain ⟨hstep, hrest⟩ := List.cons.inj hcomponents
        exact ⟨fun _ => stepOf_injective hstep, hmap hrest⟩

theorem respelled_of_key_eq (h : path.key = path'.key) :
    Respelled path.text.toList path'.text.toList := by
  obtain ⟨hfirst, hparts⟩ := filter_eq_of_key_eq hcut hcut' h
  have hspelling := respelled_spelling hcut
  have hspelling' := respelled_spelling hcut'
  have hroot : path.isAbsolute = path'.isAbsolute := congrArg Route.absolute h
  have hhead : (if path.isAbsolute then ['/'] else first) =
      if path'.isAbsolute then ['/'] else first' := by
    rw [← hroot]
    cases habsolute : path.isAbsolute with
    | true => rfl
    | false => exact hfirst habsolute
  rw [hhead, hparts] at hspelling
  exact hspelling.trans hspelling'.symm

end keys

/-- A text before a slash may have any parts behind it that lead to the same. -/
theorem key_eq_of_append {before after after' : List Char}
    (h : (Text.cut '/' after).filter leadsOn = (Text.cut '/' after').filter leadsOn) :
    (Path.mk (String.ofList (before ++ '/' :: after))).key =
      (Path.mk (String.ofList (before ++ '/' :: after'))).key := by
  obtain ⟨first, parts, hbefore⟩ := List.exists_cons_of_ne_nil (Text.cut_ne_nil '/' before)
  have hcut : ∀ rest, Text.cut '/' (Path.mk (String.ofList (before ++ '/' :: rest))).text.toList =
      first :: (parts ++ Text.cut '/' rest) := by
    intro rest
    rw [String.toList_ofList, Text.cut_append_separator, hbefore]
    rfl
  refine key_eq_of_filter_eq (hcut after) (hcut after') rfl ?_ fun _ => ?_
  · rw [List.filter_append, List.filter_append, h]
  · simp [Text.cut_ne_nil]

theorem Shortens.key_eq {text text' : List Char} (h : Shortens text text') :
    (Path.mk (String.ofList text)).key = (Path.mk (String.ofList text')).key := by
  cases h with
  | slash before after =>
    refine key_eq_of_append ?_
    rw [← List.nil_append ('/' :: after), Text.cut_append_separator]
    rfl
  | current before after =>
    refine key_eq_of_append ?_
    rw [← List.singleton_append, Text.cut_append_separator]
    rfl
  | closing _ hne =>
    obtain ⟨first, parts, hcut⟩ := List.exists_cons_of_ne_nil (Text.cut_ne_nil '/' text')
    have hclosed : Text.cut '/' (text' ++ ['/']) = first :: (parts ++ [[]]) := by
      rw [Text.cut_append_separator, hcut]
      rfl
    rw [← String.toList_ofList (l := text')] at hcut
    refine key_eq_of_filter_eq (by rw [String.toList_ofList]; exact hclosed) hcut rfl ?_ ?_
    · rw [List.filter_append]
      exact List.append_nil _
    · -- A text that is not empty and starts with a slash has a part behind it.
      rintro rfl
      have hparts : parts ≠ [] := by
        rintro rfl
        have htext := Text.join_cut '/' text'
        rw [String.toList_ofList] at hcut
        rw [hcut] at htext
        exact hne htext.symm
      simp [hparts]

theorem Respelled.key_eq {text text' : List Char} (h : Respelled text text') :
    (Path.mk (String.ofList text)).key = (Path.mk (String.ofList text')).key := by
  induction h with
  | rel _ _ h => exact h.key_eq
  | refl => rfl
  | symm _ _ _ ih => exact ih.symm
  | trans _ _ _ _ _ ih ih' => exact ih.trans ih'

/-- Paths are told apart exactly if neither is spelled anew as the other. -/
theorem key_eq_iff_respelled (path path' : Path) :
    path.key = path'.key ↔ Respelled path.text.toList path'.text.toList := by
  constructor
  · obtain ⟨first, parts, hcut⟩ := List.exists_cons_of_ne_nil (Text.cut_ne_nil '/' path.text.toList)
    obtain ⟨first', parts', hcut'⟩ :=
      List.exists_cons_of_ne_nil (Text.cut_ne_nil '/' path'.text.toList)
    exact respelled_of_key_eq hcut hcut'
  · intro h
    have hkey := h.key_eq
    rw [String.ofList_toList, String.ofList_toList] at hkey
    exact hkey

end Stencil.Path
