import Stencil.Proofs.Source.Normalization
import Stencil.Source.LineKind

/-!
# The kinds of normalized lines

The kind of a line is read off marks that normalizing it leaves alone: the ink at its start and at
its end, and the words of ink in it. What may change is the column at which it starts, which counts
for braces and include lines (`isInclude_normalize_iff`), and a tab behind the word `case`, which
becomes spaces. A line for which neither matters is of the same kind when it is normalized
(`classify_normalize`).
-/

namespace Stencil.Text

/-! ## Marks that trimmed texts keep -/

theorem head?_trim (text : List Char) : (trim text).head? = (trimStart text).head? := by
  cases htext : trimStart text with
  | nil => rw [trim, htext, trimEnd_nil]
  | cons c cs =>
    have hc := List.head?_dropWhile_not isBlank text
    rw [show text.dropWhile isBlank = c :: cs from htext] at hc
    rw [trim, htext, trimEnd_cons_of_ink (by simpa using hc)]
    rfl

theorem head?_trim_of_head? {c : Char} (hc : isBlank c = false) {text : List Char}
    (h : text.head? = some c) : (trim text).head? = some c := by
  obtain ⟨rest, rfl⟩ := List.head?_eq_some_iff.1 h
  rw [head?_trim, trimStart_cons_of_ink hc]
  rfl

theorem getLast?_trim (text : List Char) : (trim text).getLast? = (trimEnd text).getLast? := by
  rw [← trimStart_trimEnd]
  cases hlast : (trimEnd text).getLast? with
  | none => rw [List.getLast?_eq_none_iff.1 hlast]; rfl
  | some c =>
    have hc := not_isBlank_of_getLast?_trimEnd hlast
    obtain ⟨front, hfront⟩ := List.getLast?_eq_some_iff.1 hlast
    rw [hfront, trimStart, List.dropWhile_append]
    split
    · rw [List.dropWhile_cons_of_neg (by simp [hc])]
      rfl
    · rw [List.getLast?_append]
      rfl

/-- A text is one character of ink, blanks at its end aside, if it is so trimmed and begins with
it. -/
theorem trimEnd_eq_singleton_iff {c : Char} (hc : isBlank c = false) (text : List Char) :
    trimEnd text = [c] ↔ text.head? = some c ∧ trim text = [c] := by
  constructor
  · intro h
    obtain ⟨blanks, happend, -⟩ := trimEnd_append text
    refine ⟨by rw [happend, h]; rfl, ?_⟩
    rw [← trimStart_trimEnd, h, trimStart_cons_of_ink hc]
  · rintro ⟨hhead, htrim⟩
    obtain ⟨rest, rfl⟩ := List.head?_eq_some_iff.1 hhead
    rwa [trim, trimStart_cons_of_ink hc] at htrim

/-- Ink at the start of a text stays when the blanks at its end go. -/
theorem prefix_trimEnd_append {word : List Char} (hword : word.all fun c => !isBlank c)
    (rest : List Char) : word <+: trimEnd (word ++ rest) := by
  induction word with
  | nil => exact List.nil_prefix
  | cons c word ih =>
    rw [List.all_cons, Bool.and_eq_true, Bool.not_eq_true'] at hword
    rw [List.cons_append, trimEnd_cons_of_ink hword.1, List.cons_prefix_cons]
    exact ⟨rfl, ih hword.2⟩

theorem mem_ink_iff {c : Char} (hc : isBlank c = false) (text : List Char) :
    c ∈ ink text ↔ c ∈ text := by
  simp [ink, hc]

theorem singleton_prefix_iff {c : Char} {text : List Char} :
    [c] <+: text ↔ text.head? = some c := by
  cases text <;> simp [List.cons_prefix_cons, eq_comm]

namespace Respaced

variable {word s t : List Char}

/-- A text of ink alone is written in one way. -/
theorem eq_of_ink (hs : s.all fun c => !isBlank c) (h : Respaced s t) : t = s := by
  induction h with
  | nil => rfl
  | ink _ _ ih =>
    rw [List.all_cons, Bool.and_eq_true] at hs
    rw [ih hs.2]
  | @blanks a b s t ha _ hablank _ _ _ _ _ _ =>
    cases a with
    | nil => exact absurd rfl ha
    | cons c a =>
      rw [List.cons_append, List.all_cons, Bool.and_eq_true] at hs
      rw [List.all_cons, Bool.and_eq_true] at hablank
      simp [hablank.1] at hs

theorem eq_ink_iff (hword : word.all fun c => !isBlank c) (h : Respaced s t) :
    s = word ↔ t = word := by
  constructor
  · rintro rfl
    exact h.eq_of_ink hword
  · rintro rfl
    exact h.symm.eq_of_ink hword

theorem isPrefixOf_eq (hword : word.all fun c => !isBlank c) (h : Respaced s t) :
    word.isPrefixOf s = word.isPrefixOf t := by
  rw [Bool.eq_iff_iff, List.isPrefixOf_iff_prefix, List.isPrefixOf_iff_prefix]
  exact ⟨h.prefix_of_ink hword, h.symm.prefix_of_ink hword⟩

theorem mem_iff {c : Char} (hc : isBlank c = false) (h : Respaced s t) : c ∈ s ↔ c ∈ t := by
  rw [← mem_ink_iff hc s, ← mem_ink_iff hc t, h.ink_eq]

theorem head?_eq_some_iff {c : Char} (hc : isBlank c = false) (h : Respaced s t) :
    s.head? = some c ↔ t.head? = some c := by
  have hword : [c].all fun c => !isBlank c := by simp [hc]
  rw [← singleton_prefix_iff, ← singleton_prefix_iff]
  exact ⟨h.prefix_of_ink hword, h.symm.prefix_of_ink hword⟩

end Respaced

theorem occursIn_cons (word : List Char) (c : Char) (text : List Char) :
    occursIn word (c :: text) = (word.isPrefixOf (c :: text) || occursIn word text) := rfl

theorem occursIn_blanks_append {word blanks : List Char} (hne : word ≠ [])
    (hword : word.all fun c => !isBlank c) (hblanks : blanks.all isBlank) (text : List Char) :
    occursIn word (blanks ++ text) = occursIn word text := by
  induction blanks with
  | nil => rfl
  | cons b blanks ih =>
    rw [List.all_cons, Bool.and_eq_true] at hblanks
    have hprefix : word.isPrefixOf (b :: (blanks ++ text)) = false := by
      cases word with
      | nil => exact absurd rfl hne
      | cons c word =>
        rw [List.all_cons, Bool.and_eq_true] at hword
        rw [List.isPrefixOf, Bool.and_eq_false_iff, beq_eq_false_iff_ne]
        left
        rintro rfl
        simp [hblanks.1] at hword
    rw [List.cons_append, occursIn_cons, hprefix, Bool.false_or, ih hblanks.2]

/-- A word of ink stands in both texts or in none. -/
theorem Respaced.occursIn_eq {word s t : List Char} (hne : word ≠ [])
    (hword : word.all fun c => !isBlank c) (h : Respaced s t) :
    occursIn word s = occursIn word t := by
  induction h with
  | nil => rfl
  | ink hc h ih =>
    rw [occursIn_cons, occursIn_cons, ih, (Respaced.ink hc h).isPrefixOf_eq hword]
  | blanks _ _ hablank hbblank _ _ _ _ ih =>
    rw [occursIn_blanks_append hne hword hablank, occursIn_blanks_append hne hword hbblank, ih]

end Stencil.Text

namespace Stencil.Source

open Text

/-! ## Marks that normalized lines keep -/

theorem indentation_eq_nil_iff {columns level : Nat} :
    indentation columns level = [] ↔ columns = 0 ∧ level = 0 := by
  constructor
  · intro h
    have hcolumns := eq_zero_of_indentation h
    subst hcolumns
    refine ⟨rfl, ?_⟩
    cases level with
    | zero => rfl
    | succ level =>
      rw [indentation_of_lt (by unfold tabWidth; omega)] at h
      cases h
  · rintro ⟨rfl, rfl⟩
    rfl

theorem isMargin_of_ink {c : Char} (hc : isBlank c = false) : isMargin c = false := by
  rw [← Bool.not_eq_true] at hc ⊢
  exact fun hmargin => hc (isBlank_of_isMargin hmargin)

/-- A line that starts with ink has no margin. -/
theorem of_head?_eq_ink {c : Char} (hc : isBlank c = false) {line : Line}
    (h : line.head? = some c) : margin line = [] ∧ content line = trimEnd line := by
  obtain ⟨rest, rfl⟩ := List.head?_eq_some_iff.1 h
  have hmargin : isMargin c = false := isMargin_of_ink hc
  exact ⟨margin_append List.all_nil hmargin rest, content_append List.all_nil hmargin rest⟩

/-- A line starts with ink when it is normalized if it did before and is not indented. -/
theorem head?_normalize_eq_some_iff {c : Char} (hc : isBlank c = false) (level : Nat)
    (line : Line) :
    (normalize level line).head? = some c ↔ level = 0 ∧ line.head? = some c := by
  constructor
  · intro h
    cases hcontent : content line with
    | nil =>
      rw [normalize_of_content_eq_nil hcontent] at h
      cases h
    | cons d ds =>
      have hne : content line ≠ [] := by simp [hcontent]
      rw [normalize_of_content_ne_nil hne, List.head?_append] at h
      cases hindent : indentation (width (margin line)) level with
      | nil =>
        obtain ⟨hwidth, hlevel⟩ := indentation_eq_nil_iff.1 hindent
        have hline := margin_append_dropWhile line
        rw [eq_nil_of_width hwidth, List.nil_append] at hline
        rw [hindent, hcontent, expandTabs_cons (not_isMargin_of_content hcontent)] at h
        rw [content, hline] at hcontent
        obtain ⟨blanks, happend, -⟩ := trimEnd_append line
        rw [happend, hcontent]
        exact ⟨hlevel, h⟩
      | cons d' _ =>
        have hblank := all_isMargin_indentation (width (margin line)) level
        rw [hindent, List.all_cons, Bool.and_eq_true] at hblank
        rw [hindent] at h
        cases h
        rw [isBlank_of_isMargin hblank.1] at hc
        cases hc
  · rintro ⟨rfl, hhead⟩
    obtain ⟨hmargin, hcontent⟩ := of_head?_eq_ink hc hhead
    obtain ⟨rest, rfl⟩ := List.head?_eq_some_iff.1 hhead
    rw [trimEnd_cons_of_ink hc] at hcontent
    rw [normalize_of_content_ne_nil (by simp [hcontent]), hmargin, hcontent,
      expandTabs_cons (isMargin_of_ink hc)]
    rfl

theorem isInclude_iff (line : Line) :
    isInclude line = true ↔ line.head? = some '#' ∧ includeStart <+: trim line := by
  rw [isInclude, List.isPrefixOf_iff_prefix]
  constructor
  · rintro ⟨rest, rfl⟩
    have htrim : trim (includeStart ++ rest) = trimEnd (includeStart ++ rest) := by
      rw [trim]
      exact congrArg trimEnd (trimStart_cons_of_ink (by decide) _)
    rw [htrim]
    exact ⟨rfl, prefix_trimEnd_append (by decide) rest⟩
  · rintro ⟨hhead, hword⟩
    obtain ⟨rest, rfl⟩ := List.head?_eq_some_iff.1 hhead
    rw [trim, trimStart_cons_of_ink (by decide)] at hword
    exact hword.trans (prefix_trimEnd _)

/-- A line is an include line when it is normalized if it was one and is not indented. -/
theorem isInclude_normalize_iff (level : Nat) (line : Line) :
    isInclude (normalize level line) = true ↔ level = 0 ∧ isInclude line = true := by
  have hword : includeStart <+: trim (normalize level line) ↔ includeStart <+: trim line := by
    rw [trim_normalize]
    have h := respaced_expandTabs_zero (trim line)
    exact ⟨h.symm.prefix_of_ink (by decide), h.prefix_of_ink (by decide)⟩
  rw [isInclude_iff, isInclude_iff, head?_normalize_eq_some_iff (by decide), hword, and_assoc]

theorem head?_expandTabs_of_pos {pending : Nat} (h : 0 < pending) (text : List Char) :
    (expandTabs pending text).head? = some ' ' := by
  induction text generalizing pending with
  | nil =>
    obtain ⟨n, rfl⟩ := Nat.exists_eq_add_one.2 h
    rfl
  | cons c cs ih =>
    cases hc : isMargin c with
    | true =>
      rcases eq_of_isMargin hc with rfl | rfl
      · rw [expandTabs_space]
        exact ih (Nat.succ_pos _)
      · rw [expandTabs_tab, ← List.replicate_add, List.head?_append]
        rfl
    | false =>
      obtain ⟨n, rfl⟩ := Nat.exists_eq_add_one.2 h
      rw [expandTabs_cons hc]
      rfl

/-- A word with a space behind it stays one, and none comes up but where a tab was. -/
theorem prefix_space_expandTabs_iff {word : List Char} (hword : word.all fun c => !isBlank c)
    {text : List Char} (htab : ¬word ++ ['\t'] <+: text) :
    word ++ [' '] <+: expandTabs 0 text ↔ word ++ [' '] <+: text := by
  induction word generalizing text with
  | nil =>
    rw [List.nil_append, singleton_prefix_iff, singleton_prefix_iff]
    rw [List.nil_append, singleton_prefix_iff] at htab
    cases text with
    | nil => rfl
    | cons d text =>
      cases hd : isMargin d with
      | true =>
        rcases eq_of_isMargin hd with rfl | rfl
        · rw [expandTabs_space, head?_expandTabs_of_pos (Nat.succ_pos _)]
          rfl
        · exact absurd rfl htab
      | false =>
        rw [expandTabs_cons hd]
        rfl
  | cons c word ih =>
    rw [List.all_cons, Bool.and_eq_true, Bool.not_eq_true'] at hword
    cases text with
    | nil => rfl
    | cons d text =>
      by_cases hcd : d = c
      · subst hcd
        rw [List.cons_append, List.cons_prefix_cons] at htab
        rw [expandTabs_cons (isMargin_of_ink hword.1), List.replicate_zero, List.nil_append,
          List.cons_append, List.cons_prefix_cons, List.cons_prefix_cons,
          ih hword.2 fun h => htab ⟨rfl, h⟩]
      · have hhead : ¬(d :: text).head? = some c := by simp [hcd]
        refine iff_of_false ?_ ?_
        · rintro ⟨rest, hrest⟩
          rw [(respaced_expandTabs_zero (d :: text)).head?_eq_some_iff hword.1, ← hrest] at hhead
          exact hhead rfl
        · rintro ⟨rest, hrest⟩
          rw [← hrest] at hhead
          exact hhead rfl

/-! ## Kinds -/

theorem classify_true (line : Line) :
    classify true line = (.comment, !occursIn commentEnd (trim line)) := rfl

theorem classify_normalize_of_comment (level : Nat) (line : Line) :
    classify true (normalize level line) = classify true line := by
  rw [classify_true, classify_true, trim_normalize,
    ← (respaced_expandTabs_zero (trim line)).occursIn_eq (by decide) (by decide)]

/-- The word of a case label. -/
def caseWord : List Char := "case".toList

/-- A line of code is no line of any other kind. -/
structure IsCode (line : Line) : Prop where
  ne_nil : trim line ≠ []
  no_comment : ¬['/', '*'] <+: trim line
  no_remark : ¬['/', '/'] <+: trim line
  no_hash : (trim line).head? ≠ some '#'
  no_open : trimEnd line ≠ ['{']
  no_close : line.head? ≠ some '}'
  no_case : ¬"case ".toList <+: trim line
  no_default : ¬"default:".toList <+: trim line
  no_break : trim line ≠ "break;".toList

/-- What is read off a line that no comment is open before. -/
inductive Classified (line : Line) : LineKind × Bool → Prop
  | blank (h : trim line = []) : Classified line (.blank, false)
  | comment (h : ['/', '*'] <+: trim line) :
    Classified line (.comment, !occursIn commentEnd (trim line))
  | remark (h : ['/', '/'] <+: trim line) : Classified line (.comment, false)
  | preprocessor (h : (trim line).head? = some '#') : Classified line (.preprocessor, false)
  | openBrace (h : trimEnd line = ['{']) : Classified line (.openBrace, false)
  | closeBrace (h : line.head? = some '}') : Classified line (.closeBrace, false)
  | caseLabel (h : "case ".toList <+: trim line ∨ "default:".toList <+: trim line) :
    Classified line (.caseLabel, false)
  | breakStatement (h : trim line = "break;".toList) : Classified line (.breakStatement, false)
  | code (h : IsCode line) : Classified line (.code ((trim line).contains '('), false)

theorem classified (line : Line) : Classified line (classify false line) := by
  unfold classify
  rw [if_neg Bool.false_ne_true]
  by_cases hempty : (trim line).isEmpty = true
  · rw [if_pos hempty]
    exact .blank (List.isEmpty_iff.1 hempty)
  by_cases hcomment : ['/', '*'].isPrefixOf (trim line) = true
  · rw [if_neg hempty, if_pos hcomment]
    exact .comment (List.isPrefixOf_iff_prefix.1 hcomment)
  by_cases hremark : ['/', '/'].isPrefixOf (trim line) = true
  · rw [if_neg hempty, if_neg hcomment, if_pos hremark]
    exact .remark (List.isPrefixOf_iff_prefix.1 hremark)
  rw [if_neg hempty, if_neg hcomment, if_neg hremark]
  by_cases hhash : (trim line).head? = some '#'
  · rw [if_pos hhash]
    exact .preprocessor hhash
  by_cases hopen : trimEnd line = ['{']
  · rw [if_neg hhash, if_pos hopen]
    exact .openBrace hopen
  by_cases hclose : line.head? = some '}'
  · rw [if_neg hhash, if_neg hopen, if_pos hclose]
    exact .closeBrace hclose
  rw [if_neg hhash, if_neg hopen, if_neg hclose]
  by_cases hlabel : ("case ".toList.isPrefixOf (trim line) ||
      "default:".toList.isPrefixOf (trim line)) = true
  · rw [if_pos hlabel]
    rw [Bool.or_eq_true, List.isPrefixOf_iff_prefix, List.isPrefixOf_iff_prefix] at hlabel
    exact .caseLabel hlabel
  by_cases hbreak : trim line = "break;".toList
  · rw [if_neg hlabel, if_pos hbreak]
    exact .breakStatement hbreak
  rw [if_neg hlabel, if_neg hbreak]
  rw [List.isEmpty_iff] at hempty
  rw [List.isPrefixOf_iff_prefix] at hcomment hremark
  rw [Bool.or_eq_true, List.isPrefixOf_iff_prefix, List.isPrefixOf_iff_prefix, not_or] at hlabel
  exact .code ⟨hempty, hcomment, hremark, hhash, hopen, hclose, hlabel.1, hlabel.2, hbreak⟩

theorem classify_of_isCode {line : Line} (h : IsCode line) :
    classify false line = (.code ((trim line).contains '('), false) := by
  have hcode := classified line
  generalize classify false line = read at hcode ⊢
  cases hcode with
  | blank hblank => exact absurd hblank h.ne_nil
  | comment hcomment => exact absurd hcomment h.no_comment
  | remark hremark => exact absurd hremark h.no_remark
  | preprocessor hhash => exact absurd hhash h.no_hash
  | openBrace hopen => exact absurd hopen h.no_open
  | closeBrace hclose => exact absurd hclose h.no_close
  | caseLabel hlabel => exact hlabel.elim (absurd · h.no_case) (absurd · h.no_default)
  | breakStatement hbreak => exact absurd hbreak h.no_break
  | code _ => rfl

/-- A line that belongs to no comment leaves no comment open. -/
theorem of_classify_ne_comment {inComment : Bool} {line : Line}
    (h : (classify inComment line).1 ≠ .comment) :
    inComment = false ∧ (classify inComment line).2 = false := by
  cases inComment with
  | true => exact absurd rfl h
  | false =>
    refine ⟨rfl, ?_⟩
    cases hread : classify false line with
    | mk kind after =>
      have hclassified := classified line
      rw [hread] at h hclassified
      cases hclassified with
      | comment _ => exact absurd rfl h
      | _ => rfl

theorem classify_of_openBrace {line : Line} (h : trimEnd line = ['{']) :
    classify false line = (.openBrace, false) := by
  have htrim : trim line = ['{'] := ((trimEnd_eq_singleton_iff (by decide) line).1 h).2
  simp [classify, htrim, h]

theorem classify_of_closeBrace {line : Line} (h : line.head? = some '}') :
    classify false line = (.closeBrace, false) := by
  obtain ⟨rest, htrim⟩ := List.head?_eq_some_iff.1 (head?_trim_of_head? (by decide) h)
  have hopen : trimEnd line ≠ ['{'] := by
    intro hopen
    rw [trimEnd_eq_singleton_iff (by decide), h] at hopen
    exact absurd hopen.1 (by decide)
  simp [classify, htrim, hopen, h]

/-- A brace that is indented is code. -/
theorem exists_classify_eq_code_of_brace {c : Char} (hc : c = '{' ∨ c = '}') {line : Line}
    (htrim : (trim line).head? = some c) (hindent : line.head? ≠ some c) :
    ∃ hasParenthesis, classify false line = (.code hasParenthesis, false) := by
  obtain ⟨rest, htext⟩ := List.head?_eq_some_iff.1 htrim
  have hopen : trimEnd line ≠ ['{'] := by
    intro hopen
    obtain ⟨hhead, hwhole⟩ := (trimEnd_eq_singleton_iff (by decide) line).1 hopen
    rw [hwhole] at htrim
    exact hindent (hhead.trans htrim)
  have hclose : line.head? ≠ some '}' := by
    intro hclose
    rw [head?_trim_of_head? (by decide) hclose] at htrim
    exact hindent (hclose.trans htrim)
  rcases hc with rfl | rfl
  · simp [classify, htext, hopen, hclose]
  · simp [classify, htext, hopen, hclose]

/-- A brace becomes code when it is indented. -/
theorem exists_classify_normalize_brace {c : Char} (hc : c = '{' ∨ c = '}') {line : Line}
    (htrim : (trim line).head? = some c) {level : Nat} (hlevel : level ≠ 0) :
    ∃ hasParenthesis, classify false (normalize level line) = (.code hasParenthesis, false) := by
  have hink : isBlank c = false := by
    rcases hc with rfl | rfl <;> decide
  refine exists_classify_eq_code_of_brace hc ?_ fun hhead => ?_
  · rwa [trim_normalize, ← (respaced_expandTabs_zero (trim line)).head?_eq_some_iff hink]
  · exact hlevel ((head?_normalize_eq_some_iff hink level line).1 hhead).1

/-- A line with a tab behind its word `case` is code. -/
theorem exists_classify_eq_code_of_case_tab {line : Line} (h : caseWord ++ ['\t'] <+: trim line) :
    ∃ hasParenthesis, classify false line = (.code hasParenthesis, false) := by
  obtain ⟨rest, htext⟩ := h
  have hhead : (trim line).head? = some 'c' := by
    rw [← htext]
    rfl
  have hopen : trimEnd line ≠ ['{'] := by
    intro hopen
    rw [((trimEnd_eq_singleton_iff (by decide) line).1 hopen).2] at hhead
    cases hhead
  have hclose : line.head? ≠ some '}' := by
    intro hclose
    rw [head?_trim_of_head? (by decide) hclose] at hhead
    cases hhead
  simp [classify, ← htext, caseWord, hopen, hclose]

theorem classify_eq_blank_iff (line : Line) :
    (classify false line).1 = .blank ↔ trim line = [] := by
  constructor
  · intro h
    have hread := classified line
    generalize classify false line = read at h hread
    cases hread with
    | blank hblank => exact hblank
    | _ => cases h
  · intro h
    simp [classify, h]

theorem classify_eq_openBrace_iff (line : Line) :
    (classify false line).1 = .openBrace ↔ trimEnd line = ['{'] := by
  constructor
  · intro h
    have hread := classified line
    generalize classify false line = read at h hread
    cases hread with
    | openBrace hopen => exact hopen
    | _ => cases h
  · intro h
    rw [classify_of_openBrace h]

theorem classify_eq_closeBrace_iff (line : Line) :
    (classify false line).1 = .closeBrace ↔ line.head? = some '}' := by
  constructor
  · intro h
    have hread := classified line
    generalize classify false line = read at h hread
    cases hread with
    | closeBrace hclose => exact hclose
    | _ => cases h
  · intro h
    rw [classify_of_closeBrace h]

/-- A line is of the same kind when it is normalized, if it is not indented where its column counts
and no tab stands behind its word `case`. -/
theorem classify_normalize {level : Nat} {line : Line}
    (hopen : trimEnd line = ['{'] → level = 0) (hclose : line.head? = some '}' → level = 0)
    (hcase : ¬caseWord ++ ['\t'] <+: trim line) :
    classify false (normalize level line) = classify false line := by
  have h := respaced_expandTabs_zero (trim line)
  have hend : (trimEnd (normalize level line) = ['{']) = (trimEnd line = ['{']) := by
    rw [trimEnd_eq_singleton_iff (by decide)] at hopen
    rw [eq_iff_iff, trimEnd_eq_singleton_iff (by decide), trimEnd_eq_singleton_iff (by decide),
      head?_normalize_eq_some_iff (by decide), trim_normalize, ← h.eq_ink_iff (by decide)]
    exact ⟨fun hend => ⟨hend.1.2, hend.2⟩, fun hend => ⟨⟨hopen hend, hend.1⟩, hend.2⟩⟩
  have hhead : ((normalize level line).head? = some '}') = (line.head? = some '}') := by
    rw [head?_normalize_eq_some_iff (by decide), eq_iff_iff, and_iff_right_iff_imp]
    exact hclose
  have hlabel : "case ".toList.isPrefixOf (expandTabs 0 (trim line)) =
      "case ".toList.isPrefixOf (trim line) := by
    rw [Bool.eq_iff_iff, List.isPrefixOf_iff_prefix, List.isPrefixOf_iff_prefix]
    exact prefix_space_expandTabs_iff (by decide) hcase
  have hempty : (expandTabs 0 (trim line)).isEmpty = (trim line).isEmpty := by
    rw [Bool.eq_iff_iff, List.isEmpty_iff, List.isEmpty_iff, h.eq_nil_iff]
  have hhash : ((expandTabs 0 (trim line)).head? = some '#') = ((trim line).head? = some '#') := by
    rw [eq_iff_iff, h.head?_eq_some_iff (by decide)]
  have hbreak : (expandTabs 0 (trim line) = "break;".toList) = (trim line = "break;".toList) := by
    rw [eq_iff_iff, h.eq_ink_iff (by decide)]
  have hparen : (expandTabs 0 (trim line)).contains '(' = (trim line).contains '(' := by
    rw [Bool.eq_iff_iff, List.contains_iff_mem, List.contains_iff_mem, h.mem_iff (by decide)]
  unfold classify
  simp only [trim_normalize, hend, hhead, hlabel, hempty, hhash, hbreak, hparen,
    ← h.isPrefixOf_eq (show (['/', '*'].all fun c => !isBlank c) = true by decide),
    ← h.isPrefixOf_eq (show (['/', '/'].all fun c => !isBlank c) = true by decide),
    ← h.isPrefixOf_eq (show ("default:".toList.all fun c => !isBlank c) = true by decide),
    ← h.occursIn_eq (show commentEnd ≠ [] by decide)
      (show (commentEnd.all fun c => !isBlank c) = true by decide)]

/-- A line is of the same kind when it is normalized, if it is a brace only where it is not
indented, and if no tab stands behind its word `case`. -/
theorem classify_normalize_of_kind {inComment : Bool} {level : Nat} {line : Line}
    (hopen : (classify inComment line).1 = .openBrace → level = 0)
    (hclose : (classify inComment line).1 = .closeBrace → level = 0)
    (hcase : ∀ hasParenthesis, (classify inComment line).1 = .code hasParenthesis →
      ¬caseWord ++ ['\t'] <+: trim line) :
    classify inComment (normalize level line) = classify inComment line := by
  cases inComment with
  | true => exact classify_normalize_of_comment level line
  | false =>
    rw [classify_eq_openBrace_iff] at hopen
    rw [classify_eq_closeBrace_iff] at hclose
    refine classify_normalize hopen hclose fun htab => ?_
    obtain ⟨hasParenthesis, hkind⟩ := exists_classify_eq_code_of_case_tab htab
    exact hcase hasParenthesis (by rw [hkind]) htab

/-- A line of code without an opening parenthesis. -/
structure IsPlainCode (line : Line) : Prop extends IsCode line where
  no_parenthesis : '(' ∉ trim line

theorem classify_eq_code_iff (line : Line) :
    classify false line = (.code false, false) ↔ IsPlainCode line := by
  constructor
  · intro h
    have hread := classified line
    generalize classify false line = read at h hread
    cases hread with
    | code hcode =>
      refine ⟨hcode, fun hmem => ?_⟩
      rw [List.contains_iff_mem.2 hmem] at h
      cases h
    | _ => cases h
  · intro h
    have hparen : (trim line).contains '(' = false := by
      simpa using h.no_parenthesis
    rw [classify_of_isCode h.toIsCode, hparen]

end Stencil.Source
