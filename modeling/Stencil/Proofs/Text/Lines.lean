import Mathlib.Data.List.Basic
import Stencil.Text.Line

/-!
# Lines joined and read again

A text made of lines that hold no line feed and end in no carriage return is read as these lines
(`lines_join_append`), but for an empty last line (`lines_join`). Pieces that do not hold a
separator are cut out of the text that they make with it (`cut_join`).
-/

namespace Stencil.Text

/-- A line that is read back from a text. -/
structure IsLine (line : List Char) : Prop where
  not_mem_feed : '\n' ∉ line
  no_return : line.getLast? ≠ some '\r'

/-- The two line ends. -/
def IsLineEnd (lineEnd : List Char) : Prop :=
  lineEnd = ['\n'] ∨ lineEnd = ['\r', '\n']

theorem not_mem_feed_of_mem_lines (text : List Char) : ∀ line ∈ lines text, '\n' ∉ line := by
  fun_induction lines text with
  | case1 => simp
  | case2 cs ih => simpa using ih
  | case3 cs ih => simpa using ih
  | case4 c cs hfeed _ _ _ =>
    have hne : '\n' ≠ c := fun h => hfeed h.symm
    simpa using hne
  | case5 c cs hfeed _ l ls hlines ih =>
    rw [hlines, List.forall_mem_cons] at ih
    have hne : '\n' ≠ c := fun h => hfeed h.symm
    simpa [hne] using ih

theorem lines_ne_nil {text : List Char} (h : text ≠ []) : lines text ≠ [] := by
  fun_cases lines text with
  | case1 => exact absurd rfl h
  | _ => simp

/-- A character that begins no line end belongs to the first line. -/
theorem lines_cons_of_ne {c : Char} {cs : List Char} (hfeed : c ≠ '\n')
    (hreturn : c = '\r' → cs.head? ≠ some '\n') :
    lines (c :: cs) =
      match lines cs with
      | [] => [[c]]
      | l :: ls => (c :: l) :: ls := by
  refine lines.eq_4 c cs hfeed fun rest hc hcs => ?_
  rw [hcs] at hreturn
  exact hreturn hc rfl

namespace IsLine

variable {c : Char} {line : List Char}

theorem of_cons (h : IsLine (c :: line)) : IsLine line where
  not_mem_feed hmem := h.not_mem_feed (List.mem_cons_of_mem _ hmem)
  no_return hlast := h.no_return (by rw [List.getLast?_cons, hlast]; rfl)

theorem ne_feed (h : IsLine (c :: line)) : c ≠ '\n' := by
  rintro rfl
  exact h.not_mem_feed List.mem_cons_self

/-- A carriage return of a line is none of its line end. -/
theorem head?_ne_feed (h : IsLine (c :: line)) (hreturn : c = '\r') (text : List Char) :
    (line ++ text).head? ≠ some '\n' := by
  cases line with
  | nil =>
    rw [hreturn] at h
    exact absurd rfl h.no_return
  | cons d line =>
    intro hhead
    cases hhead
    exact h.of_cons.ne_feed rfl

end IsLine

/-- The first line is read up to its line end. -/
theorem lines_append {line lineEnd : List Char} (h : IsLine line) (hend : IsLineEnd lineEnd)
    (text : List Char) : lines (line ++ (lineEnd ++ text)) = line :: lines text := by
  induction line with
  | nil => rcases hend with rfl | rfl <;> rfl
  | cons c line ih =>
    have hreturn := fun hc : c = '\r' => h.head?_ne_feed hc (lineEnd ++ text)
    rw [List.cons_append, lines_cons_of_ne h.ne_feed hreturn, ih h.of_cons]

theorem lines_of_isLine {line : List Char} (h : IsLine line) (hne : line ≠ []) :
    lines line = [line] := by
  induction line with
  | nil => exact absurd rfl hne
  | cons c line ih =>
    have hreturn : c = '\r' → line.head? ≠ some '\n' := by
      intro hc
      simpa using h.head?_ne_feed hc []
    rw [lines_cons_of_ne h.ne_feed hreturn]
    cases line with
    | nil => rfl
    | cons d line => rw [ih h.of_cons (List.cons_ne_nil _ _)]

variable {lineEnd : List Char} {parts : List (List Char)}

theorem join_cons (lineEnd part : List Char) (hne : parts ≠ []) :
    join lineEnd (part :: parts) = part ++ (lineEnd ++ join lineEnd parts) := by
  cases parts with
  | nil => exact absurd rfl hne
  | cons part' parts => simp [join]

theorem join_append_singleton (lineEnd last : List Char) (hne : parts ≠ []) :
    join lineEnd (parts ++ [last]) = join lineEnd parts ++ (lineEnd ++ last) := by
  induction parts with
  | nil => exact absurd rfl hne
  | cons part parts ih =>
    by_cases hparts : parts = []
    · subst hparts
      simp [join]
    · rw [List.cons_append, join_cons _ _ (by simp), ih hparts, join_cons _ _ hparts]
      simp only [List.append_assoc]

theorem cut_join {separator : Char} (hne : parts ≠ [])
    (h : ∀ part ∈ parts, separator ∉ part) : cut separator (join [separator] parts) = parts := by
  induction parts with
  | nil => exact absurd rfl hne
  | cons part parts ih =>
    rw [List.forall_mem_cons] at h
    by_cases hparts : parts = []
    · subst hparts
      exact cut_of_not_mem h.1
    · rw [join_cons _ _ hparts, List.singleton_append, cut_append_separator, cut_of_not_mem h.1,
        ih hparts h.2, List.singleton_append]

/-- A text ends in the separator exactly if its last piece is empty and not the only one. -/
theorem getLast?_eq_separator_iff {separator : Char} {text : List Char} :
    text.getLast? = some separator ↔
      ∃ parts, cut separator text = parts ++ [[]] ∧ parts ≠ [] := by
  constructor
  · intro h
    obtain ⟨before, rfl⟩ := List.getLast?_eq_some_iff.1 h
    exact ⟨cut separator before, cut_append_separator separator before [], cut_ne_nil _ _⟩
  · rintro ⟨parts, hcut, hne⟩
    rw [← join_cut separator text, hcut, join_append_singleton _ _ hne]
    simp

theorem lines_join_append (hend : IsLineEnd lineEnd) (hne : parts ≠ [])
    (h : ∀ part ∈ parts, IsLine part) (text : List Char) :
    lines (join lineEnd parts ++ (lineEnd ++ text)) = parts ++ lines text := by
  induction parts with
  | nil => exact absurd rfl hne
  | cons part parts ih =>
    rw [List.forall_mem_cons] at h
    by_cases hparts : parts = []
    · subst hparts
      exact lines_append h.1 hend text
    · rw [join_cons _ _ hparts, List.append_assoc, List.append_assoc, lines_append h.1 hend,
        ih hparts h.2, List.cons_append]

theorem lines_join (hend : IsLineEnd lineEnd) {last : List Char}
    (h : ∀ part ∈ parts ++ [last], IsLine part) (hlast : last ≠ []) :
    lines (join lineEnd (parts ++ [last])) = parts ++ [last] := by
  rw [List.forall_mem_append, List.forall_mem_singleton] at h
  by_cases hparts : parts = []
  · subst hparts
    exact lines_of_isLine h.2 hlast
  · rw [join_append_singleton _ _ hparts, lines_join_append hend hparts h.1,
      lines_of_isLine h.2 hlast]

end Stencil.Text
