import Stencil.Path

/-!
# Paths that lead on

A path that leads on by a name goes the way of the path and takes one more step (`written_join`,
`route_join`). What tells a path apart ends in the name that is written last, and is otherwise what
is written, without steps to where the way already is (`components_of_written`).
-/

namespace Stencil

namespace Path

/-- The text can be the name of a file or directory, as far as paths go. -/
structure IsName (name : String) : Prop where
  ne_nil : name.toList ≠ []
  slash : '/' ∉ name.toList
  ne_current : name ≠ "."
  ne_parent : name ≠ ".."

/-- The steps that are written in a text. -/
def stepsOf (text : List Char) : List Step :=
  ((Text.cut '/' text).filter fun part => !part.isEmpty).map fun part =>
    .ofText (String.ofList part)

theorem written_eq (path : Path) : path.written = stepsOf path.text.toList := rfl

theorem stepsOf_append_slash (before after : List Char) :
    stepsOf (before ++ '/' :: after) = stepsOf before ++ stepsOf after := by
  rw [stepsOf, Text.cut_append_separator, List.filter_append, List.map_append]
  rfl

theorem IsName.stepsOf_eq {name : String} (h : IsName name) :
    stepsOf name.toList = [.name name] := by
  have hstep : Step.ofText name = .name name := by
    rw [Step.ofText, if_neg h.ne_current, if_neg h.ne_parent]
  rw [stepsOf, Text.cut_of_not_mem h.slash]
  simp [h.ne_nil, hstep]

section join

variable {path : Path} {name : String} (hpath : path.text ≠ "") (hname : IsName name)

include hname in
theorem isAbsolute_name : (Path.mk name).isAbsolute = false := by
  rw [isAbsolute, decide_eq_false_iff_not]
  intro hhead
  exact hname.slash (List.mem_of_head? hhead)

include hpath hname in
/-- Between a path and a name there is one slash, be it that the path ends in it. -/
theorem exists_text_join :
    ∃ before, (path.join ⟨name⟩).text.toList = before ++ '/' :: name.toList ∧
      (path.text.toList = before ∨ path.text.toList = before ++ ['/']) := by
  have hempty : path.text.isEmpty = false := String.isEmpty_eq_false_iff.2 hpath
  rw [join, isAbsolute_name hname, if_neg Bool.false_ne_true, hempty, Bool.false_or]
  cases hslash : path.endsInSlash with
  | true =>
    obtain ⟨before, hbefore⟩ := List.getLast?_eq_some_iff.1 (of_decide_eq_true hslash)
    refine ⟨before, ?_, .inr hbefore⟩
    rw [if_pos rfl, String.toList_append, hbefore, List.append_assoc]
    rfl
  | false =>
    refine ⟨path.text.toList, ?_, .inl rfl⟩
    rw [if_neg Bool.false_ne_true, String.toList_append, String.toList_append, List.append_assoc]
    rfl

include hpath hname in
theorem text_join_ne_empty : (path.join ⟨name⟩).text ≠ "" := by
  obtain ⟨before, htext, -⟩ := exists_text_join hpath hname
  intro hempty
  rw [hempty] at htext
  exact List.append_ne_nil_of_right_ne_nil before (List.cons_ne_nil '/' _) htext.symm

include hpath hname in
theorem written_join : (path.join ⟨name⟩).written = path.written ++ [.name name] := by
  obtain ⟨before, htext, hbefore⟩ := exists_text_join hpath hname
  have hwritten : path.written = stepsOf before := by
    rw [written_eq]
    rcases hbefore with hbefore | hbefore
    · rw [hbefore]
    · rw [hbefore, stepsOf_append_slash]
      exact List.append_nil _
  rw [written_eq, htext, stepsOf_append_slash, hname.stepsOf_eq, hwritten]

include hpath hname in
theorem isAbsolute_join : (path.join ⟨name⟩).isAbsolute = path.isAbsolute := by
  obtain ⟨before, htext, hbefore⟩ := exists_text_join hpath hname
  have hnil : path.text.toList ≠ [] := fun hnil => hpath (String.toList_injective hnil)
  rw [isAbsolute, isAbsolute, htext]
  cases before with
  | nil =>
    rcases hbefore with hbefore | hbefore
    · exact absurd hbefore hnil
    · rw [hbefore]
      rfl
  | cons c before =>
    rcases hbefore with hbefore | hbefore
    · rw [hbefore]
      rfl
    · rw [hbefore]
      rfl

include hpath hname in
theorem endsInSlash_join : (path.join ⟨name⟩).endsInSlash = false := by
  obtain ⟨before, htext, -⟩ := exists_text_join hpath hname
  rw [endsInSlash, decide_eq_false_iff_not, htext, List.append_cons,
    List.getLast?_append, List.getLast?_eq_some_getLast hname.ne_nil, Option.some_or,
    Option.some.injEq]
  intro hlast
  exact hname.slash (hlast ▸ List.getLast_mem hname.ne_nil)

include hpath hname in
theorem route_join :
    (path.join ⟨name⟩).route = ⟨path.isAbsolute, path.written ++ [.name name]⟩ := by
  rw [route, endsInSlash_join hpath hname, if_neg Bool.false_ne_true, isAbsolute_join hpath hname,
    written_join hpath hname]

end join

theorem joinNames_concat (path : Path) (names : List String) (name : String) :
    path.joinNames (names ++ [name]) = (path.joinNames names).join ⟨name⟩ :=
  List.foldl_append

theorem components_of_written {path : Path} {way : List Step} {name : String}
    (h : path.written = way ++ [.name name]) :
    ∃ before rest, way = before ++ rest ∧
      path.components = before ++ rest.filter (· ≠ .current) ++ [.name name] := by
  unfold components
  split
  · next rest habsolute hwritten =>
    rw [h] at hwritten
    cases way with
    | nil => cases hwritten
    | cons step way =>
      obtain ⟨rfl, rfl⟩ := List.cons.inj hwritten
      refine ⟨[.current], way, rfl, ?_⟩
      rw [List.append_eq, List.filter_append]
      rfl
  · refine ⟨[], way, rfl, ?_⟩
    rw [h, List.filter_append]
    rfl

theorem fileName?_of_written {path : Path} {way : List Step} {name : String}
    (h : path.written = way ++ [.name name]) : path.fileName? = some name := by
  obtain ⟨before, rest, -, hcomponents⟩ := components_of_written h
  rw [fileName?, hcomponents, List.getLast?_concat]

end Path

end Stencil
