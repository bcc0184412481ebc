import Stencil.Proofs.Source.Line

/-!
# Normalized lines

A normalized line is a margin of tabs and spaces and then a text without tabs and without blanks at
its end. So normalizing it again changes its margin at most, and only if the level is higher than
the one before (`normalize_normalize`). What it is like and what becomes of it is put together in
`normalize_twice_max`.
-/

namespace Stencil.Text

theorem trimEnd_of_getLast? {text : List Char}
    (h : ∀ c, text.getLast? = some c → isBlank c = false) : trimEnd text = text := by
  obtain ⟨blanks, happend, hblanks⟩ := trimEnd_append text
  have hnil : blanks = [] := by
    cases hlast : blanks.getLast? with
    | none => exact List.getLast?_eq_none_iff.1 hlast
    | some c =>
      have hc : isBlank c = false := by
        apply h
        rw [happend, List.getLast?_append, hlast, Option.some_or]
      rw [List.all_eq_true.1 hblanks c (List.mem_of_getLast? hlast)] at hc
      cases hc
  rw [hnil, List.append_nil] at happend
  exact happend.symm

@[simp] theorem trimEnd_trimEnd (text : List Char) : trimEnd (trimEnd text) = trimEnd text :=
  trimEnd_of_getLast? fun _ => not_isBlank_of_getLast?_trimEnd

theorem trimStart_blanks_append {blanks : List Char} (h : blanks.all isBlank)
    (text : List Char) : trimStart (blanks ++ text) = trimStart text :=
  List.dropWhile_append_of_pos (List.all_eq_true.1 h)

theorem trimStart_cons_of_blank {c : Char} (hc : isBlank c = true) (text : List Char) :
    trimStart (c :: text) = trimStart text :=
  List.dropWhile_cons_of_pos hc

theorem trimStart_cons_of_ink {c : Char} (hc : isBlank c = false) (text : List Char) :
    trimStart (c :: text) = c :: text :=
  List.dropWhile_cons_of_neg (by simp [hc])

/-- The two ends of a text may be trimmed one after the other. -/
theorem trimStart_trimEnd (text : List Char) : trimStart (trimEnd text) = trim text := by
  rw [← trim_trimEnd, trim]
  refine (trimEnd_of_getLast? fun c hlast => ?_).symm
  obtain ⟨front, hfront⟩ := List.dropWhile_suffix isBlank (l := trimEnd text)
  have hlast' : (trimEnd text).getLast? = some c := by
    rw [← hfront, List.getLast?_append]
    unfold trimStart at hlast
    rw [hlast, Option.some_or]
  exact not_isBlank_of_getLast?_trimEnd hlast'

end Stencil.Text

namespace Stencil.Source

open Text

/-! ## Margins -/

theorem widthFrom_replicate_space (column n : Nat) :
    widthFrom column (List.replicate n ' ') = column + n := by
  induction n generalizing column with
  | zero => rfl
  | succ n ih =>
    rw [List.replicate_succ, widthFrom_cons, ih]
    simp only [advance, Char.reduceEq, if_false]
    omega

theorem widthFrom_replicate_tab (stop n : Nat) :
    widthFrom (stop * tabWidth) (List.replicate n '\t') = (stop + n) * tabWidth := by
  induction n generalizing stop with
  | zero => rfl
  | succ n ih =>
    have hadvance : advance (stop * tabWidth) '\t' = (stop + 1) * tabWidth := by
      simp [advance, tabWidth]
    rw [List.replicate_succ, widthFrom_cons, hadvance, ih]
    congr 1
    omega

theorem width_replicate_tab (n : Nat) : width (List.replicate n '\t') = n * tabWidth := by
  simpa [width] using widthFrom_replicate_tab 0 n

/-- A margin has the width that it is made for, or that of its level if this is wider. -/
theorem width_indentation (columns level : Nat) :
    width (indentation columns level) = max columns (level * tabWidth) := by
  unfold indentation
  split
  · next hle =>
    rw [width_append, width_replicate_tab, widthFrom_replicate_space, max_eq_left hle]
    exact Nat.div_add_mod' columns tabWidth
  · next hlt =>
    rw [width_replicate_tab]
    omega

theorem indentation_of_le {columns level : Nat} (h : level * tabWidth ≤ columns) :
    indentation columns level =
      List.replicate (columns / tabWidth) '\t' ++ List.replicate (columns % tabWidth) ' ' :=
  if_pos h

theorem indentation_of_lt {columns level : Nat} (h : columns < level * tabWidth) :
    indentation columns level = List.replicate level '\t' :=
  if_neg (Nat.not_le.2 h)

/-- A margin made anew is that of the higher one of the two levels. -/
theorem indentation_max (columns level level' : Nat) :
    indentation (max columns (level * tabWidth)) level' =
      indentation columns (max level level') := by
  by_cases hcolumns : max level level' * tabWidth ≤ columns
  · have hlevel : level * tabWidth ≤ columns := by
      unfold tabWidth at *
      omega
    have hlevel' : level' * tabWidth ≤ columns := by
      unfold tabWidth at *
      omega
    rw [max_eq_left hlevel, indentation_of_le hlevel', indentation_of_le hcolumns]
  · rw [Nat.not_le] at hcolumns
    rw [indentation_of_lt hcolumns]
    by_cases hlevel : level' ≤ level
    · rw [max_eq_left hlevel] at hcolumns ⊢
      have hlevel' : level' * tabWidth ≤ level * tabWidth := Nat.mul_le_mul_right _ hlevel
      rw [max_eq_right hcolumns.le, indentation_of_le hlevel']
      simp [tabWidth]
    · have hlevels : max level level' = level' := by omega
      rw [hlevels] at hcolumns ⊢
      refine indentation_of_lt ?_
      unfold tabWidth at *
      omega

/-! ## Contents -/

theorem not_isMargin_of_content {line : Line} {c : Char} {cs : List Char}
    (h : content line = c :: cs) : isMargin c = false := by
  have hhead : (line.dropWhile isMargin).head? = some c := by
    obtain ⟨blanks, happend, -⟩ := trimEnd_append (line.dropWhile isMargin)
    rw [happend, show trimEnd (line.dropWhile isMargin) = c :: cs from h]
    rfl
  have hnot := List.head?_dropWhile_not isMargin line
  rw [hhead] at hnot
  simpa using hnot

theorem trimEnd_content (line : Line) : trimEnd (content line) = content line :=
  trimEnd_trimEnd _

theorem expandTabs_space (pending : Nat) (text : List Char) :
    expandTabs pending (' ' :: text) = expandTabs (pending + 1) text := by
  rw [expandTabs, if_pos rfl]

theorem expandTabs_tab (pending : Nat) (text : List Char) :
    expandTabs pending ('\t' :: text) =
      List.replicate (pending - (tabWidth - 1)) ' ' ++ List.replicate tabWidth ' ' ++
        expandTabs 0 text := by
  rw [expandTabs, if_neg (by decide), if_pos rfl]

theorem expandTabs_cons {c : Char} (hc : isMargin c = false) (pending : Nat) (text : List Char) :
    expandTabs pending (c :: text) = List.replicate pending ' ' ++ c :: expandTabs 0 text := by
  rw [isMargin, Bool.or_eq_false_iff, decide_eq_false_iff_not, decide_eq_false_iff_not] at hc
  rw [expandTabs, if_neg hc.1, if_neg hc.2]

theorem eq_of_isMargin {c : Char} (h : isMargin c = true) : c = ' ' ∨ c = '\t' := by
  rwa [isMargin, Bool.or_eq_true, decide_eq_true_eq, decide_eq_true_eq] at h

theorem not_mem_tab_expandTabs (pending : Nat) (text : List Char) :
    '\t' ∉ expandTabs pending text := by
  induction text generalizing pending with
  | nil => simp [expandTabs]
  | cons c cs ih =>
    cases hc : isMargin c with
    | true =>
      rcases eq_of_isMargin hc with rfl | rfl
      · rw [expandTabs_space]
        exact ih _
      · rw [expandTabs_tab]
        simp [ih]
    | false =>
      have hne : '\t' ≠ c := by
        rintro rfl
        cases hc
      rw [expandTabs_cons hc]
      simp [ih, hne]

theorem mem_of_mem_expandTabs {c : Char} {pending : Nat} {text : List Char}
    (h : c ∈ expandTabs pending text) : c = ' ' ∨ c ∈ text := by
  induction text generalizing pending with
  | nil => exact .inl (List.eq_of_mem_replicate h)
  | cons d text ih =>
    cases hd : isMargin d with
    | true =>
      rcases eq_of_isMargin hd with rfl | rfl
      · rw [expandTabs_space] at h
        exact (ih h).imp_right (List.mem_cons_of_mem _)
      · rw [expandTabs_tab, List.mem_append, List.mem_append] at h
        rcases h with (h | h) | h
        · exact .inl (List.eq_of_mem_replicate h)
        · exact .inl (List.eq_of_mem_replicate h)
        · exact (ih h).imp_right (List.mem_cons_of_mem _)
    | false =>
      rw [expandTabs_cons hd, List.mem_append, List.mem_cons] at h
      rcases h with h | rfl | h
      · exact .inl (List.eq_of_mem_replicate h)
      · exact .inr List.mem_cons_self
      · exact (ih h).imp_right (List.mem_cons_of_mem _)

/-- Without tabs there is nothing to expand. -/
theorem expandTabs_of_not_mem_tab (pending : Nat) {text : List Char} (h : '\t' ∉ text) :
    expandTabs pending text = List.replicate pending ' ' ++ text := by
  induction text generalizing pending with
  | nil => rw [expandTabs, List.append_nil]
  | cons c cs ih =>
    rw [List.mem_cons, not_or] at h
    cases hc : isMargin c with
    | true =>
      rcases eq_of_isMargin hc with rfl | rfl
      · rw [expandTabs_space, ih _ h.2, List.replicate_succ', List.append_assoc,
          List.singleton_append]
      · exact absurd rfl h.1
    | false => rw [expandTabs_cons hc, ih _ h.2, List.replicate_zero, List.nil_append]

theorem expandTabs_expandTabs (text : List Char) :
    expandTabs 0 (expandTabs 0 text) = expandTabs 0 text :=
  expandTabs_of_not_mem_tab 0 (not_mem_tab_expandTabs 0 text)

theorem respaced_expandTabs_zero (text : List Char) : Respaced text (expandTabs 0 text) :=
  respaced_expandTabs 0 text

/-- Expanding tabs puts no blanks at the end of a text. -/
theorem trimEnd_expandTabs {text : List Char} (h : trimEnd text = text) :
    trimEnd (expandTabs 0 text) = expandTabs 0 text := by
  refine trimEnd_of_getLast? fun c hlast => ?_
  cases htext : text.getLast? with
  | none =>
    rw [List.getLast?_eq_none_iff.1 htext] at hlast
    cases hlast
  | some d =>
    have hd : isBlank d = false := by
      rw [← h] at htext
      exact not_isBlank_of_getLast?_trimEnd htext
    rw [(respaced_expandTabs_zero text).getLast?_eq_some_iff hd, hlast] at htext
    cases htext
    exact hd

theorem trimStart_expandTabs (pending : Nat) (text : List Char) :
    trimStart (expandTabs pending text) = expandTabs 0 (trimStart text) := by
  induction text generalizing pending with
  | nil =>
    rw [expandTabs, ← List.append_nil (List.replicate pending ' '),
      trimStart_blanks_append (all_isBlank_replicate (by decide) _)]
    rfl
  | cons c cs ih =>
    cases hc : isMargin c with
    | true =>
      rw [trimStart_cons_of_blank (isBlank_of_isMargin hc)]
      rcases eq_of_isMargin hc with rfl | rfl
      · rw [expandTabs_space, ih]
      · rw [expandTabs_tab, List.append_assoc,
          trimStart_blanks_append (all_isBlank_replicate (by decide) _),
          trimStart_blanks_append (all_isBlank_replicate (by decide) _), ih]
    | false =>
      rw [expandTabs_cons hc, trimStart_blanks_append (all_isBlank_replicate (by decide) _)]
      cases hblank : isBlank c with
      | true => rw [trimStart_cons_of_blank hblank, trimStart_cons_of_blank hblank, ih]
      | false =>
        rw [trimStart_cons_of_ink hblank, trimStart_cons_of_ink hblank, expandTabs_cons hc]
        rfl

theorem margin_append {front : List Char} (hfront : front.all isMargin) {c : Char}
    (hc : isMargin c = false) (cs : List Char) : margin (front ++ c :: cs) = front := by
  rw [margin, List.takeWhile_append_of_pos (List.all_eq_true.1 hfront),
    List.takeWhile_cons_of_neg (by simp [hc]), List.append_nil]

theorem content_append {front : List Char} (hfront : front.all isMargin) {c : Char}
    (hc : isMargin c = false) (cs : List Char) :
    content (front ++ c :: cs) = trimEnd (c :: cs) := by
  rw [content, List.dropWhile_append_of_pos (List.all_eq_true.1 hfront),
    List.dropWhile_cons_of_neg (by simp [hc])]

/-! ## Normalized lines -/

theorem normalize_of_content_eq_nil {line : Line} (h : content line = []) (level : Nat) :
    normalize level line = [] := by
  rw [normalize, h]

theorem normalize_of_content_ne_nil {line : Line} (h : content line ≠ []) (level : Nat) :
    normalize level line =
      indentation (width (margin line)) level ++ expandTabs 0 (content line) := by
  unfold normalize
  cases hcontent : content line with
  | nil => exact absurd hcontent h
  | cons c cs => rfl

theorem normalize_of_trim_eq_nil {line : Line} (h : trim line = []) (level : Nat) :
    normalize level line = [] := by
  refine normalize_of_content_eq_nil ?_ level
  have hblank : (content line).all isBlank := by
    rw [← trim_content, ← trimStart_trimEnd, trimEnd_content, trimStart,
      List.dropWhile_eq_nil_iff] at h
    exact List.all_eq_true.2 h
  rw [← trimEnd_content]
  exact trimEnd_append_blanks [] hblank

section normalize

variable {line : Line} {level : Nat}

theorem margin_normalize (h : content line ≠ []) :
    margin (normalize level line) = indentation (width (margin line)) level := by
  rw [normalize_of_content_ne_nil h]
  cases hcontent : content line with
  | nil => exact absurd hcontent h
  | cons c cs =>
    have hc := not_isMargin_of_content hcontent
    rw [expandTabs_cons hc]
    exact margin_append (all_isMargin_indentation _ _) hc _

theorem content_normalize : content (normalize level line) = expandTabs 0 (content line) := by
  cases hcontent : content line with
  | nil =>
    rw [normalize_of_content_eq_nil hcontent]
    rfl
  | cons c cs =>
    have hc := not_isMargin_of_content hcontent
    have htrim := trimEnd_expandTabs (trimEnd_content line)
    rw [normalize_of_content_ne_nil (by simp [hcontent]), hcontent]
    rw [hcontent, expandTabs_cons hc, List.replicate_zero, List.nil_append] at htrim
    rw [expandTabs_cons hc, List.replicate_zero, List.nil_append,
      content_append (all_isMargin_indentation _ _) hc, htrim]

/-- What a line is like that normalizing does not change. -/
theorem normalize_eq_self_iff (hcontent : content line ≠ []) :
    normalize level line = line ↔
      indentation (width (margin line)) level = margin line ∧ '\t' ∉ content line ∧
        line = margin line ++ content line := by
  have hnormalize := normalize_of_content_ne_nil hcontent level
  constructor
  · intro h
    have hmargin : margin (normalize level line) = indentation (width (margin line)) level :=
      margin_normalize hcontent
    have hexpand : content (normalize level line) = expandTabs 0 (content line) :=
      content_normalize
    rw [h] at hmargin hexpand hnormalize
    refine ⟨hmargin.symm, ?_, ?_⟩
    · rw [hexpand]
      exact not_mem_tab_expandTabs 0 _
    · rwa [← hmargin, ← hexpand] at hnormalize
  · rintro ⟨hindent, htab, hline⟩
    rw [hnormalize, hindent, expandTabs_of_not_mem_tab 0 htab, List.replicate_zero,
      List.nil_append]
    exact hline.symm

end normalize

/-- Without its blanks at both ends a normalized line is the line with its tabs expanded. -/
theorem trim_normalize (level : Nat) (line : Line) :
    trim (normalize level line) = expandTabs 0 (trim line) := by
  obtain ⟨blanks, hblanks, hnormalize⟩ := exists_normalize_eq level line
  rw [hnormalize, trim_blanks_append hblanks, ← trimStart_trimEnd,
    trimEnd_expandTabs (trimEnd_content line), trimStart_expandTabs, ← trim_content,
    ← trimStart_trimEnd (content line), trimEnd_content]

/-- A normalized line has no blanks at its end. -/
theorem trimEnd_normalize (level : Nat) (line : Line) :
    trimEnd (normalize level line) = normalize level line := by
  by_cases hcontent : content line = []
  · rw [normalize_of_content_eq_nil hcontent, trimEnd_nil]
  · refine trimEnd_of_getLast? fun c hlast => ?_
    have hne : expandTabs 0 (content line) ≠ [] :=
      fun hnil => hcontent ((respaced_expandTabs_zero (content line)).eq_nil_iff.2 hnil)
    rw [normalize_of_content_ne_nil hcontent, List.getLast?_append_of_ne_nil _ hne,
      ← trimEnd_expandTabs (trimEnd_content line)] at hlast
    exact not_isBlank_of_getLast?_trimEnd hlast

theorem mem_of_mem_normalize {level : Nat} {line : Line} {c : Char} (h : c ∈ normalize level line) :
    c = ' ' ∨ c = '\t' ∨ c ∈ line := by
  by_cases hcontent : content line = []
  · rw [normalize_of_content_eq_nil hcontent] at h
    cases h
  · rw [normalize_of_content_ne_nil hcontent, List.mem_append] at h
    rcases h with h | h
    · have hmargin := List.all_eq_true.1 (all_isMargin_indentation _ _) c h
      exact (eq_of_isMargin hmargin).imp_right .inl
    · refine (mem_of_mem_expandTabs h).imp_right fun hmem => .inr ?_
      obtain ⟨blanks, happend, -⟩ := trimEnd_append (line.dropWhile isMargin)
      refine (List.dropWhile_sublist isMargin).mem ?_
      rw [happend]
      exact List.mem_append_left _ hmem

/-- Normalizing again is normalizing to the higher one of the two levels. -/
theorem normalize_normalize (level level' : Nat) (line : Line) :
    normalize level' (normalize level line) = normalize (max level level') line := by
  by_cases hcontent : content line = []
  · have hcontent' : content (normalize level line) = [] := by
      rw [content_normalize, hcontent]
      rfl
    rw [normalize_of_content_eq_nil hcontent', normalize_of_content_eq_nil hcontent]
  · have hcontent' : content (normalize level line) ≠ [] := by
      rw [content_normalize]
      exact fun hnil => hcontent ((respaced_content line).eq_nil_iff.2 hnil)
    rw [normalize_of_content_ne_nil hcontent', margin_normalize hcontent, content_normalize,
      width_indentation, indentation_max, expandTabs_expandTabs,
      normalize_of_content_ne_nil hcontent]

end Stencil.Source
