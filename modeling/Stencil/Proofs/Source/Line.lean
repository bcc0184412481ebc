import Stencil.Proofs.Text.Spacing
import Stencil.Source.Alignment
import Stencil.Source.Include

/-!
# What formatting does to one line

A line is given out normalized, and aligned if it holds an assignment. Neither touches its ink
(`ink_normalize`, `ink_alignLine`), and normalizing leaves blanks where blanks were, those at the
ends of the line aside (`respaced_trim_normalize`).
-/

namespace Stencil.Source

open Text

/-! ## Margins -/

theorem isBlank_of_isMargin {c : Char} (h : isMargin c = true) : isBlank c = true := by
  rw [isMargin, Bool.or_eq_true, decide_eq_true_eq, decide_eq_true_eq] at h
  rcases h with rfl | rfl
  · decide
  · decide

theorem all_isBlank_replicate {c : Char} (hc : isBlank c = true) (n : Nat) :
    (List.replicate n c).all isBlank := by
  rw [List.all_eq_true]
  intro d hd
  rw [List.eq_of_mem_replicate hd, hc]

theorem all_isBlank_margin (line : Line) : (margin line).all isBlank := by
  rw [List.all_eq_true]
  intro c hc
  exact isBlank_of_isMargin (List.mem_takeWhile_imp hc)

/-- A margin is tabs and then spaces; the tabs are those that fit, or those of the level. -/
theorem exists_indentation_eq (columns level : Nat) :
    ∃ spaces, indentation columns level =
      List.replicate (max (columns / tabWidth) level) '\t' ++ List.replicate spaces ' ' := by
  unfold indentation
  split
  · next hlevel =>
    refine ⟨columns % tabWidth, ?_⟩
    rw [max_eq_left ((Nat.le_div_iff_mul_le (by decide)).2 hlevel)]
  · next hlevel =>
    rw [Nat.not_le] at hlevel
    refine ⟨0, ?_⟩
    rw [List.replicate_zero, List.append_nil,
      max_eq_right ((Nat.div_lt_iff_lt_mul (by decide)).2 hlevel).le]

theorem all_isMargin_indentation (columns level : Nat) :
    (indentation columns level).all isMargin := by
  obtain ⟨spaces, hindent⟩ := exists_indentation_eq columns level
  rw [hindent, List.all_eq_true]
  intro c hc
  rcases List.mem_append.1 hc with htab | hspace
  · rw [List.eq_of_mem_replicate htab]
    rfl
  · rw [List.eq_of_mem_replicate hspace]
    rfl

theorem all_isBlank_indentation (columns level : Nat) :
    (indentation columns level).all isBlank := by
  rw [List.all_eq_true]
  intro c hc
  exact isBlank_of_isMargin (List.all_eq_true.1 (all_isMargin_indentation columns level) c hc)

theorem margin_append_dropWhile (line : Line) : margin line ++ line.dropWhile isMargin = line :=
  List.takeWhile_append_dropWhile

theorem margin_prefix_takeWhile (line : Line) : margin line <+: line.takeWhile isBlank := by
  have hmargin : margin line = (line.takeWhile isBlank).takeWhile isMargin := by
    rw [List.takeWhile_takeWhile, margin]
    congr 1
    funext c
    cases hc : isMargin c with
    | true => simp [isBlank_of_isMargin hc]
    | false => simp
  rw [hmargin]
  exact List.takeWhile_prefix _

/-- A normalized line is blanks before its content with the tabs expanded. -/
theorem exists_normalize_eq (level : Nat) (line : Line) :
    ∃ blanks : List Char, blanks.all isBlank ∧
      normalize level line = blanks ++ expandTabs 0 (content line) := by
  unfold normalize
  cases content line with
  | nil => exact ⟨[], rfl, rfl⟩
  | cons c cs => exact ⟨_, all_isBlank_indentation _ _, rfl⟩

theorem trim_content (line : Line) : trim (content line) = trim line := by
  conv => rhs; rw [← margin_append_dropWhile line, trim_blanks_append (all_isBlank_margin line)]
  exact trim_trimEnd _

theorem content_ne_nil_of_trim {line : Line} (h : trim line ≠ []) : content line ≠ [] := by
  intro hcontent
  rw [← trim_content, hcontent] at h
  exact h rfl

/-! ## Tabs -/

/-- Expanding tabs leaves blanks where blanks were, the pending spaces included. -/
theorem respaced_expandTabs (n : Nat) (text : List Char) :
    Respaced (List.replicate n ' ' ++ text) (expandTabs n text) := by
  induction text generalizing n with
  | nil =>
    rw [List.append_nil]
    exact .refl _
  | cons c cs ih =>
    unfold expandTabs
    split
    · next hc =>
      have h := ih (n + 1)
      rw [List.replicate_succ', List.append_assoc, List.singleton_append] at h
      rwa [hc]
    · split
      · next hc =>
        have h := ih 0
        rw [List.replicate_zero, List.nil_append] at h
        rw [hc, ← List.singleton_append, ← List.append_assoc]
        refine .append_blanks (by simp) (by simp [tabWidth]) ?_ ?_ ?_ h
        · rw [List.all_append, Bool.and_eq_true]
          exact ⟨all_isBlank_replicate (by decide) _, by decide⟩
        · rw [List.all_append, Bool.and_eq_true]
          exact ⟨all_isBlank_replicate (by decide) _, all_isBlank_replicate (by decide) _⟩
        · simp
      · have h := ih 0
        rw [List.replicate_zero, List.nil_append] at h
        exact .append_left _ (.cons c h)

theorem respaced_content (line : Line) :
    Respaced (content line) (expandTabs 0 (content line)) :=
  respaced_expandTabs 0 (content line)

/-- Normalizing a line leaves blanks where blanks were, those at its ends aside. -/
theorem respaced_trim_normalize (level : Nat) (line : Line) :
    Respaced (trim line) (trim (normalize level line)) := by
  obtain ⟨blanks, hblanks, hnormalize⟩ := exists_normalize_eq level line
  rw [hnormalize, trim_blanks_append hblanks, ← trim_content]
  exact (respaced_content line).trim

/-! ## Ink -/

theorem ink_content (line : Line) : ink (content line) = ink line := by
  conv => rhs; rw [← margin_append_dropWhile line, ink_append, ink_eq_nil (all_isBlank_margin line)]
  rw [content, ink_trimEnd, List.nil_append]

/-- Normalizing a line keeps its ink. -/
theorem ink_normalize (level : Nat) (line : Line) : ink (normalize level line) = ink line := by
  obtain ⟨blanks, hblanks, hnormalize⟩ := exists_normalize_eq level line
  rw [hnormalize, ink_append, ink_eq_nil hblanks, List.nil_append, ← (respaced_content line).ink_eq,
    ink_content]

/-- The two parts of a line with an assignment, and what is left out between them. -/
theorem of_splitAssignment? {line before assignment : Line}
    (h : splitAssignment? line = some (before, assignment)) :
    before = trimEnd (line.takeWhile (· != '=')) ∧ assignment = line.dropWhile (· != '=') := by
  unfold splitAssignment? at h
  cases hdrop : line.dropWhile (· != '=') with
  | nil => simp [hdrop] at h
  | cons sign value =>
    simp only [hdrop] at h
    split at h
    · cases h
    · split at h
      · cases h
      · cases h
        exact ⟨rfl, rfl⟩

/-- Aligning a line keeps its ink. -/
theorem ink_alignLine (offset : Nat) (line : Line) : ink (alignLine offset line) = ink line := by
  unfold alignLine
  split
  · next before assignment h =>
    obtain ⟨hbefore, hassignment⟩ := of_splitAssignment? h
    rw [ink_append, ink_append, ink_replicate_space, List.append_nil, hbefore, hassignment,
      ink_trimEnd, ← ink_append, List.takeWhile_append_dropWhile]
  · rfl

/-! ## Include lines -/

theorem add_length_le_widthFrom (column : Nat) (text : List Char) :
    column + text.length ≤ widthFrom column text := by
  induction text generalizing column with
  | nil => exact Nat.le_refl _
  | cons c cs ih =>
    have hstep : column + 1 ≤ advance column c := by
      unfold advance tabWidth
      split <;> omega
    have := ih (advance column c)
    rw [widthFrom_cons, List.length_cons]
    omega

theorem eq_nil_of_width {text : List Char} (h : width text = 0) : text = [] := by
  have := add_length_le_widthFrom 0 text
  rw [width] at h
  rw [← List.length_eq_zero_iff]
  omega

theorem eq_zero_of_indentation {columns level : Nat} (h : indentation columns level = []) :
    columns = 0 := by
  unfold indentation at h
  split at h
  · rw [List.append_eq_nil_iff, List.replicate_eq_nil_iff, List.replicate_eq_nil_iff] at h
    have := Nat.div_add_mod columns tabWidth
    rw [h.1, h.2] at this
    omega
  · next hlevel =>
    rw [List.replicate_eq_nil_iff] at h
    subst h
    omega

theorem head?_ink_of_isInclude {line : Line} (h : isInclude line = true) :
    (ink line).head? = some '#' := by
  rw [isInclude, List.isPrefixOf_iff_prefix] at h
  obtain ⟨rest, rfl⟩ := h
  rw [ink_append]
  rfl

theorem isInclude_of_head?_trim {line : Line} (h : (trim line).head? ≠ some '#') :
    isInclude line = false := by
  rw [Bool.eq_false_iff]
  intro hinclude
  rw [← head?_ink_trim] at h
  exact h (head?_ink_of_isInclude hinclude)

theorem prefix_of_append_space {word front rest : List Char} (hword : ' ' ∉ word)
    (h : word <+: front ++ ' ' :: rest) : word <+: front := by
  rcases List.prefix_or_prefix_of_prefix h (List.prefix_append front _) with h' | ⟨tail, rfl⟩
  · exact h'
  · rw [List.prefix_append_right_inj] at h
    cases tail with
    | nil => exact ⟨[], by rw [List.append_nil, List.append_nil]⟩
    | cons c tail =>
      rw [List.cons_prefix_cons] at h
      simp [h.1] at hword

end Stencil.Source
