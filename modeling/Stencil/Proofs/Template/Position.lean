import Stencil.Template
import Stencil.Text.Line

/-!
# Places in a template

A place is told by the number of its line and its number in this line. Main statement: counting both
from the start of the template leads to the place told in this way (`Position.isBehind_iff`), and a
character is found in its line at the place that is told (`Position.exists_line_of_char`).
-/

namespace Stencil

namespace Text

/-- What stands behind lines is cut without them. -/
theorem cut_lines_append {above : List (List Char)} (h : ∀ line ∈ above, '\n' ∉ line)
    (text : List Char) :
    cut '\n' (above.flatMap (· ++ ['\n']) ++ text) = above ++ cut '\n' text := by
  induction above with
  | nil => rfl
  | cons line above ih =>
    rw [List.forall_mem_cons] at h
    rw [List.flatMap_cons, List.append_assoc, List.append_assoc, List.singleton_append,
      cut_append_separator, cut_of_not_mem h.1, ih h.2]
    rfl

/-- What stands before the first line feed belongs to the first line. -/
theorem exists_cut_append {before : List Char} (h : '\n' ∉ before) (text : List Char) :
    ∃ after below, cut '\n' (before ++ text) = (before ++ after) :: below := by
  induction before with
  | nil => exact List.exists_cons_of_ne_nil (cut_ne_nil '\n' text)
  | cons c before ih =>
    rw [List.mem_cons, not_or] at h
    obtain ⟨after, below, hcut⟩ := ih h.2
    exact ⟨after, below, by rw [List.cons_append, cut, if_neg (Ne.symm h.1), hcut]; rfl⟩

/-- A text is lines and the start of a line. -/
theorem exists_eq_lines_append (text : List Char) :
    ∃ (above : List (List Char)) (before : List Char),
      text = above.flatMap (· ++ ['\n']) ++ before ∧ (∀ line ∈ above, '\n' ∉ line) ∧
        '\n' ∉ before := by
  induction text with
  | nil => exact ⟨[], [], rfl, List.forall_mem_nil _, List.not_mem_nil⟩
  | cons c text ih =>
    obtain ⟨above, before, rfl, habove, hbefore⟩ := ih
    by_cases hc : c = '\n'
    · subst hc
      exact ⟨[] :: above, before, rfl, List.forall_mem_cons.2 ⟨List.not_mem_nil, habove⟩, hbefore⟩
    · have hcons : ∀ {line : List Char}, '\n' ∉ line → '\n' ∉ c :: line :=
        fun h => List.not_mem_cons_of_ne_of_not_mem (Ne.symm hc) h
      cases above with
      | nil => exact ⟨[], c :: before, rfl, habove, hcons hbefore⟩
      | cons line above =>
        rw [List.forall_mem_cons] at habove
        exact ⟨(c :: line) :: above, before, rfl,
          List.forall_mem_cons.2 ⟨hcons habove.1, habove.2⟩, hbefore⟩

end Text

namespace Template.Position

/-- The place in `text` behind its start `front`, told by the line that it is in and the number of
characters before it in this line. Lines end in line feeds. -/
def IsBehind (position : Position) (front text : List Char) : Prop :=
  ∃ above before after below, Text.cut '\n' text = above ++ (before ++ after) :: below ∧
    front = above.flatMap (· ++ ['\n']) ++ before ∧
    position = ⟨above.length + 1, before.length + 1⟩

theorem after_append (position : Position) (front rest : List Char) :
    position.after (front ++ rest) = (position.after front).after rest :=
  List.foldl_append

theorem after_of_not_mem (position : Position) {text : List Char} (h : '\n' ∉ text) :
    position.after text = ⟨position.line, position.column + text.length⟩ := by
  induction text generalizing position with
  | nil => rfl
  | cons c text ih =>
    rw [List.mem_cons, not_or] at h
    have hnext : position.next c = ⟨position.line, position.column + 1⟩ := if_neg (Ne.symm h.1)
    have hstep : position.after (c :: text) = (position.next c).after text := rfl
    rw [hstep, ih _ h.2, hnext, List.length_cons]
    simp only [Nat.add_assoc, Nat.add_comm 1]

theorem after_lines {above : List (List Char)} (h : ∀ line ∈ above, '\n' ∉ line) (line : Nat) :
    (Position.mk line 1).after (above.flatMap (· ++ ['\n'])) = ⟨line + above.length, 1⟩ := by
  induction above generalizing line with
  | nil => rfl
  | cons first above ih =>
    rw [List.forall_mem_cons] at h
    have hfeed : (⟨line, 1 + first.length⟩ : Position).after ['\n'] = ⟨line + 1, 1⟩ := rfl
    rw [List.flatMap_cons, after_append, after_append, after_of_not_mem _ h.1, hfeed, ih h.2,
      List.length_cons]
    simp only [Nat.add_assoc, Nat.add_comm 1]

theorem after_start {above : List (List Char)} {before : List Char}
    (habove : ∀ line ∈ above, '\n' ∉ line) (hbefore : '\n' ∉ before) :
    start.after (above.flatMap (· ++ ['\n']) ++ before) =
      ⟨above.length + 1, before.length + 1⟩ := by
  rw [after_append, start, after_lines habove, after_of_not_mem _ hbefore, Nat.add_comm 1,
    Nat.add_comm 1]

/-- Counting lines and characters while a text is read tells the place behind it. -/
theorem isBehind_iff {position : Position} {front text : List Char} (h : front <+: text) :
    position.IsBehind front text ↔ position = start.after front := by
  obtain ⟨rest, rfl⟩ := h
  constructor
  · rintro ⟨above, before, after, below, hcut, rfl, rfl⟩
    have hmem : ∀ line ∈ Text.cut '\n' (above.flatMap (· ++ ['\n']) ++ before ++ rest),
        '\n' ∉ line := Text.not_mem_of_mem_cut
    rw [hcut, List.forall_mem_append, List.forall_mem_cons] at hmem
    have hbefore : '\n' ∉ before := fun hfeed => hmem.2.1 (List.mem_append_left _ hfeed)
    exact (after_start hmem.1 hbefore).symm
  · rintro rfl
    obtain ⟨above, before, rfl, habove, hbefore⟩ := Text.exists_eq_lines_append front
    obtain ⟨after, below, hcut⟩ := Text.exists_cut_append hbefore rest
    refine ⟨above, before, after, below, ?_, rfl, after_start habove hbefore⟩
    rw [List.append_assoc, Text.cut_lines_append habove, hcut]

/-- A character stands where the place behind what is before it says. -/
theorem exists_line_of_char (front rest : List Char) {c : Char} (hc : c ≠ '\n') :
    ∃ told, (Text.cut '\n' (front ++ c :: rest))[(start.after front).line - 1]? = some told ∧
      told[(start.after front).column - 1]? = some c := by
  obtain ⟨above, before, rfl, habove, hbefore⟩ := Text.exists_eq_lines_append front
  have hcolumn : '\n' ∉ before ++ [c] := by
    rw [List.mem_append, List.mem_singleton, not_or]
    exact ⟨hbefore, Ne.symm hc⟩
  obtain ⟨after, below, hcut⟩ := Text.exists_cut_append hcolumn rest
  have htext : above.flatMap (· ++ ['\n']) ++ before ++ c :: rest =
      above.flatMap (· ++ ['\n']) ++ (before ++ [c] ++ rest) := by simp
  rw [htext, Text.cut_lines_append habove, hcut, after_start habove hbefore]
  exact ⟨before ++ [c] ++ after, by simp, by simp⟩

end Template.Position

end Stencil
