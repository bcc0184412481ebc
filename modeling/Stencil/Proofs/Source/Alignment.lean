import Stencil.Proofs.Sorting
import Stencil.Proofs.Source.Kind
import Stencil.Proofs.Source.Padding
import Stencil.Source.Layout

/-!
# Arranged runs of declarations

Aligning a line changes nothing but the blanks before its assignment sign. So a line that is aligned
is split at its sign as before, it plays no role where it was aligned before (`alignTo_alignTo`),
and aligning again does nothing (`align_align`); and as it is the same declaration as before, a run
that is sorted stays sorted when it is aligned. A run that is arranged is thus arranged for good
(`arrange_arrange`).
-/

namespace Stencil.Text

/-- Blanks at the end of a text stand behind its last ink. -/
theorem trimEnd_append_cons {c : Char} (hc : isBlank c = false) (front rest : List Char) :
    trimEnd (front ++ c :: rest) = front ++ c :: trimEnd rest := by
  induction front with
  | nil => exact trimEnd_cons_of_ink hc rest
  | cons d front ih =>
    rw [List.cons_append, trimEnd, ih]
    cases front <;> rfl

end Stencil.Text

namespace Stencil.Source

open Text

/-! ## Assignment signs -/

/-- The first `=` of a line stands behind a text without one. -/
theorem takeWhile_sign_append {front : List Char} (hfront : '=' ∉ front) (rest : List Char) :
    (front ++ '=' :: rest).takeWhile (· != '=') = front ∧
      (front ++ '=' :: rest).dropWhile (· != '=') = '=' :: rest := by
  refine takeWhile_append_of_stop ?_ fun c hc => by cases hc; rfl
  rw [List.all_eq_true]
  intro c hc
  rw [bne_iff_ne]
  rintro rfl
  exact hfront hc

/-- A line with `before` in front of its assignment sign, `blanks` right before it and `value`
behind it. -/
structure Assigns (before blanks value : List Char) : Prop where
  not_mem_sign : '=' ∉ before
  trimmed : trimEnd before = before
  ink : before.all isBlank = false
  blanks : blanks.all isBlank
  value : (value.head? = some '=' || (trimStart value).head? = some '{') = false

namespace Assigns

variable {before blanks value : List Char}

theorem not_mem_sign_append (h : Assigns before blanks value) : '=' ∉ before ++ blanks := by
  rw [List.mem_append, not_or]
  refine ⟨h.not_mem_sign, fun hmem => ?_⟩
  exact absurd (List.all_eq_true.1 h.blanks _ hmem) (by decide)

theorem splitAssignment? (h : Assigns before blanks value) :
    splitAssignment? (before ++ (blanks ++ '=' :: value)) = some (before, '=' :: value) := by
  obtain ⟨htake, hdrop⟩ := takeWhile_sign_append h.not_mem_sign_append value
  unfold Source.splitAssignment?
  rw [← List.append_assoc, htake, hdrop, trimEnd_append_blanks _ h.blanks, h.trimmed]
  simp only [h.value, h.ink, Bool.false_eq_true, if_false]

end Assigns

theorem exists_assigns {line before assignment : Line}
    (h : splitAssignment? line = some (before, assignment)) :
    ∃ blanks value, line = before ++ (blanks ++ '=' :: value) ∧ assignment = '=' :: value ∧
      Assigns before blanks value := by
  obtain ⟨hbefore, hassignment⟩ := of_splitAssignment? h
  obtain ⟨blanks, happend, hblanks⟩ := trimEnd_append (line.takeWhile (· != '='))
  unfold splitAssignment? at h
  cases hdrop : line.dropWhile (· != '=') with
  | nil => simp [hdrop] at h
  | cons sign value =>
    have hsign : sign = '=' := by
      have hnot := List.head?_dropWhile_not (· != '=') line
      rw [hdrop] at hnot
      simpa using hnot
    subst hsign
    simp only [hdrop] at h
    split at h
    · cases h
    next hvalue =>
      split at h
      · cases h
      next hink =>
        refine ⟨blanks, value, ?_, by rw [hassignment, hdrop], ?_, ?_, ?_, hblanks, ?_⟩
        · rw [← List.append_assoc, hbefore, ← happend, ← hdrop, List.takeWhile_append_dropWhile]
        · intro hmem
          have hmem' : '=' ∈ line.takeWhile (· != '=') := by
            rw [happend, ← hbefore]
            exact List.mem_append_left _ hmem
          exact absurd (List.mem_takeWhile_imp hmem') (by decide)
        · rw [hbefore, trimEnd_trimEnd]
        · rw [hbefore]
          simpa using hink
        · simpa using hvalue

/-- A line is as it was after alignment, or its blanks before the sign are spaces. -/
theorem alignLine_cases (offset : Nat) (line : Line) :
    splitAssignment? line = none ∧ alignLine offset line = line ∨
      ∃ before blanks spaces value, Assigns before blanks value ∧ spaces ≠ [] ∧
        Assigns before spaces value ∧
        spaces = List.replicate (max (offset - width before) 1) ' ' ∧
        line = before ++ (blanks ++ '=' :: value) ∧
        alignLine offset line = before ++ (spaces ++ '=' :: value) := by
  cases hsplit : splitAssignment? line with
  | none => exact .inl ⟨rfl, by rw [alignLine, hsplit]⟩
  | some parts =>
    obtain ⟨before, assignment⟩ := parts
    obtain ⟨blanks, value, hline, rfl, h⟩ := exists_assigns hsplit
    have hspaces : (List.replicate (max (offset - width before) 1) ' ').all isBlank :=
      all_isBlank_replicate (by decide) _
    refine .inr ⟨before, blanks, _, value, h, ?_, { h with blanks := hspaces }, rfl, hline, ?_⟩
    · rw [Ne, List.replicate_eq_nil_iff]
      omega
    · rw [alignLine, hsplit]
      simp only [List.append_assoc]

theorem splitAssignment?_alignLine (offset : Nat) (line : Line) :
    splitAssignment? (alignLine offset line) = splitAssignment? line := by
  rcases alignLine_cases offset line with ⟨-, halign⟩ | ⟨_, _, _, _, h, -, h', -, hline, halign⟩
  · rw [halign]
  · rw [halign, hline, h.splitAssignment?, h'.splitAssignment?]

/-- A line that is aligned twice stands as the second time puts it. -/
theorem alignLine_alignLine (first second : Nat) (line : Line) :
    alignLine second (alignLine first line) = alignLine second line := by
  rcases alignLine_cases first line with
    ⟨-, halign⟩ | ⟨before, _, _, value, h, -, h', -, hline, halign⟩
  · rw [halign]
  · rw [halign, hline, alignLine, alignLine, h.splitAssignment?, h'.splitAssignment?]

theorem alignTo_alignTo (first second : Nat) (lines : List Line) :
    alignTo second (alignTo first lines) = alignTo second lines := by
  rw [alignTo, alignTo, List.map_map]
  exact List.map_congr_left fun line _ => alignLine_alignLine first second line

theorem alignmentOffset?_alignTo (offset : Nat) (lines : List Line) :
    alignmentOffset? (alignTo offset lines) = alignmentOffset? lines := by
  unfold alignmentOffset? alignTo
  rw [List.filterMap_map]
  congr 1
  simp only [Function.comp_def, splitAssignment?_alignLine]

/-- Lines whose signs stand in one column stay as they are. -/
theorem align_align (lines : List Line) : align (align lines) = align lines := by
  unfold align
  cases hoffset : alignmentOffset? lines with
  | none => simp only [hoffset]
  | some offset => simp only [alignmentOffset?_alignTo, hoffset, alignTo_alignTo]

/-- Lines without an assignment sign stay as they are. -/
theorem alignTo_of_offset_eq_none {lines : List Line} (h : alignmentOffset? lines = none)
    (offset : Nat) : alignTo offset lines = lines := by
  rw [alignmentOffset?, List.max?_eq_none_iff, List.filterMap_eq_nil_iff] at h
  have hsame : ∀ line ∈ lines, alignLine offset line = id line := by
    intro line hline
    have hsplit := h line hline
    rw [Option.map_eq_none_iff] at hsplit
    rw [alignLine, hsplit]
    rfl
  rw [alignTo, List.map_congr_left hsame, List.map_id]

/-- Lines are aligned to some column, which does not matter if they hold no assignment sign. -/
theorem exists_align_eq_alignTo (lines : List Line) :
    ∃ offset, align lines = alignTo offset lines := by
  unfold align
  cases hoffset : alignmentOffset? lines with
  | some offset => exact ⟨offset, rfl⟩
  | none => exact ⟨0, (alignTo_of_offset_eq_none hoffset 0).symm⟩

theorem alignLine_nil (offset : Nat) : alignLine offset [] = [] := rfl

theorem align_append_nil (lines : List Line) : align (lines ++ [[]]) = align lines ++ [[]] := by
  have hoffset : alignmentOffset? (lines ++ [[]]) = alignmentOffset? lines := by
    rw [alignmentOffset?, List.filterMap_append]
    exact congrArg List.max? (List.append_nil _)
  unfold align
  rw [hoffset]
  cases alignmentOffset? lines with
  | none => rfl
  | some offset => simp [alignTo, alignLine_nil]

/-- A line of aligned lines is one of the lines, aligned or not. -/
theorem exists_of_mem_align {lines : List Line} {line : Line} (h : line ∈ align lines) :
    ∃ u ∈ lines, line = u ∨ ∃ offset, line = alignLine offset u := by
  unfold align at h
  split at h
  · obtain ⟨u, hu, rfl⟩ := List.mem_map.1 h
    exact ⟨u, hu, .inr ⟨_, rfl⟩⟩
  · exact ⟨line, h, .inl rfl⟩

/-! ## Aligned lines are the same declarations -/

namespace Assigns

variable {before blanks spaces value : List Char}

theorem trim (h : Assigns before blanks value) :
    trim (before ++ (blanks ++ '=' :: value)) =
      trimStart before ++ (blanks ++ '=' :: trimEnd value) := by
  have hink : (before.dropWhile isBlank).isEmpty = false := by
    rw [List.isEmpty_eq_false_iff, Ne, List.dropWhile_eq_nil_iff, ← List.all_eq_true, h.ink]
    exact Bool.false_ne_true
  have hstart : trimStart (before ++ (blanks ++ '=' :: value)) =
      trimStart before ++ (blanks ++ '=' :: value) := by
    rw [trimStart, List.dropWhile_append, hink]
    rfl
  rw [Text.trim, hstart, ← List.append_assoc, ← List.append_assoc]
  exact trimEnd_append_cons (by decide) _ _

/-- The text before the sign, without the blanks at its start. -/
theorem not_mem_sign_trimStart (h : Assigns before blanks value) : '=' ∉ trimStart before :=
  fun hmem => h.not_mem_sign ((List.dropWhile_suffix isBlank).subset hmem)

theorem padded (h : Assigns before blanks value) (h' : Assigns before spaces value)
    (hne : spaces ≠ []) :
    Padded (Text.trim (before ++ (blanks ++ '=' :: value)))
      (Text.trim (before ++ (spaces ++ '=' :: value))) := by
  rw [h.trim, h'.trim]
  exact .append h.not_mem_sign_trimStart (.sign _ h.blanks hne h'.blanks)

end Assigns

theorem padded_trim_alignLine (offset : Nat) (line : Line) :
    alignLine offset line = line ∨ Padded (trim line) (trim (alignLine offset line)) := by
  rcases alignLine_cases offset line with
    ⟨-, halign⟩ | ⟨_, _, _, _, hassigns, hne, hassigns', -, hline, halign⟩
  · exact .inl halign
  · have hpadded := hassigns.padded hassigns' hne
    rw [← hline, ← halign] at hpadded
    exact .inr hpadded

/-- An aligned line is a declaration of the identifier that it was one of. -/
theorem sameDeclaration_parse?_alignLine (offset : Nat) (line : Line) :
    Declaration.SameDeclaration (Declaration.parse? line)
      (Declaration.parse? (alignLine offset line)) := by
  rcases padded_trim_alignLine offset line with halign | hpadded
  · rw [halign]
    cases Declaration.parse? line with
    | none => exact .none
    | some d => exact .some ⟨rfl, fun _ => rfl⟩
  · exact Declaration.sameDeclaration_parseModifiers? hpadded []

/-- A line without `=` in the brackets of its name is the same declaration when it is aligned. -/
theorem parse?_alignLine {line : Line}
    (h : ∀ d, Declaration.parse? line = some d → '=' ∉ d.name) (offset : Nat) :
    Declaration.parse? (alignLine offset line) = Declaration.parse? line := by
  have hsame := sameDeclaration_parse?_alignLine offset line
  cases hd : Declaration.parse? line with
  | none => exact Declaration.eq_none_of_rel_none hsame hd
  | some d =>
    obtain ⟨d', hd', -, heq⟩ := Declaration.exists_of_rel_some hsame hd
    rw [heq (h d hd)] at hd'
    exact hd'

/-! ## Sorted declarations -/

instance : Std.TransCmp Declaration.compare :=
  inferInstanceAs <| Std.TransCmp <| compareLex (compareOn fun d : Declaration => !d.isPointer) <|
    compareLex (compareOn Declaration.rank) <|
      compareLex (compareOn Declaration.stem) (compareOn Declaration.name)

theorem order_trans (a b c : Line) (h : sortDeclarations.order a b = true)
    (h' : sortDeclarations.order b c = true) : sortDeclarations.order a c = true := by
  unfold sortDeclarations.order at *
  cases ha : Declaration.parse? a with
  | none =>
    cases hb : Declaration.parse? b with
    | none => simpa [ha, hb] using h'
    | some b => simp [ha, hb] at h
  | some a =>
    cases hc : Declaration.parse? c with
    | none => rfl
    | some c =>
      cases hb : Declaration.parse? b with
      | none => simp [hb, hc] at h'
      | some b =>
        rw [ha, hb] at h
        rw [hb, hc] at h'
        exact Std.TransCmp.isLE_trans h h'

theorem order_total (a b : Line) :
    sortDeclarations.order a b = true ∨ sortDeclarations.order b a = true := by
  unfold sortDeclarations.order
  cases Declaration.parse? a with
  | none => exact .inr (by cases Declaration.parse? b <;> rfl)
  | some a =>
    cases Declaration.parse? b with
    | none => exact .inl rfl
    | some b => exact isLE_or_isLE a b

theorem order_alignLine {a b : Line} (ha : ∀ d, Declaration.parse? a = some d → '=' ∉ d.name)
    (hb : ∀ d, Declaration.parse? b = some d → '=' ∉ d.name) (offset : Nat) :
    sortDeclarations.order (alignLine offset a) (alignLine offset b) =
      sortDeclarations.order a b := by
  rw [sortDeclarations.order, sortDeclarations.order, parse?_alignLine ha, parse?_alignLine hb]

/-- Sorted lines stay sorted when they are aligned. -/
theorem sortDeclarations_align {lines : List Line}
    (hsorted : lines.Pairwise fun a b => sortDeclarations.order a b = true)
    (hnames : ∀ line ∈ lines, ∀ d, Declaration.parse? line = some d → '=' ∉ d.name) :
    sortDeclarations (align lines) = align lines := by
  refine stableSort_of_pairwise _ ?_
  unfold align
  split
  · next offset _ =>
    rw [alignTo, List.pairwise_map]
    refine hsorted.imp_of_mem fun ha hb hab => ?_
    rwa [order_alignLine (hnames _ ha) (hnames _ hb)]
  · exact hsorted

/-- A run that is arranged is arranged for good, if no name in it holds an `=`. -/
theorem arrange_arrange {run : List Line}
    (hnames : ∀ line ∈ run, ∀ d, Declaration.parse? line = some d → '=' ∉ d.name) :
    arrange (arrange run) = arrange run := by
  have hsorted : (sortDeclarations run).Pairwise fun a b => sortDeclarations.order a b = true :=
    pairwise_stableSort order_trans order_total run
  have hnames' : ∀ line ∈ sortDeclarations run, ∀ d,
      Declaration.parse? line = some d → '=' ∉ d.name := by
    intro line hline
    exact hnames line ((perm_stableSort _ run).mem_iff.1 hline)
  unfold arrange
  rw [sortDeclarations_align hsorted hnames', align_align]

theorem exists_of_mem_arrange {run : List Line} {line : Line} (h : line ∈ arrange run) :
    ∃ u ∈ run, line = u ∨ ∃ offset, line = alignLine offset u := by
  obtain ⟨u, hu, hline⟩ := exists_of_mem_align h
  exact ⟨u, (perm_stableSort _ run).mem_iff.1 hu, hline⟩

/-! ## Aligned lines are normalized -/

/-- The margin of a line with an assignment sign ends before the sign. -/
theorem Assigns.margin_and_content {before blanks value : List Char}
    (h : Assigns before blanks value) :
    margin (before ++ (blanks ++ '=' :: value)) = before.takeWhile isMargin ∧
      content (before ++ (blanks ++ '=' :: value)) =
        before.dropWhile isMargin ++ (blanks ++ '=' :: trimEnd value) ∧
      before.dropWhile isMargin ≠ [] := by
  have hmargin : (before.takeWhile isMargin).all isMargin := by
    rw [List.all_eq_true]
    exact fun c hc => List.mem_takeWhile_imp hc
  have hsplit : before.takeWhile isMargin ++ before.dropWhile isMargin = before :=
    List.takeWhile_append_dropWhile
  cases hdrop : before.dropWhile isMargin with
  | nil =>
    have hblank := all_isBlank_margin before
    rw [hdrop, List.append_nil] at hsplit
    rw [margin, hsplit, h.ink] at hblank
    cases hblank
  | cons c rest =>
    have hc : isMargin c = false := by
      have hnot := List.head?_dropWhile_not isMargin before
      rw [hdrop] at hnot
      simpa using hnot
    rw [hdrop] at hsplit
    have hline : before ++ (blanks ++ '=' :: value) =
        before.takeWhile isMargin ++ c :: (rest ++ blanks ++ '=' :: value) := by
      conv => lhs; rw [← hsplit]
      simp only [List.append_assoc, List.cons_append]
    refine ⟨?_, ?_, List.cons_ne_nil _ _⟩
    · rw [hline, margin_append hmargin hc]
    · rw [hline, content_append hmargin hc, ← List.cons_append,
        trimEnd_append_cons (by decide) (c :: (rest ++ blanks))]
      simp only [List.append_assoc, List.cons_append]

/-- Aligning a line leaves it normalized. -/
theorem normalize_alignLine {level : Nat} {line : Line} (h : normalize level line = line)
    (offset : Nat) : normalize level (alignLine offset line) = alignLine offset line := by
  rcases alignLine_cases offset line with
    ⟨-, halign⟩ | ⟨before, blanks, spaces, value, hassigns, -, hassigns', hspaces, hline, halign⟩
  · rwa [halign]
  obtain ⟨hmargin, hcontent, hne⟩ := hassigns.margin_and_content
  obtain ⟨hmargin', hcontent', -⟩ := hassigns'.margin_and_content
  rw [← hline] at hmargin hcontent
  rw [← halign] at hmargin' hcontent'
  obtain ⟨hindent, htab, hwhole⟩ := (normalize_eq_self_iff (by simp [hcontent, hne])).1 h
  rw [normalize_eq_self_iff (by simp [hcontent', hne]), hmargin', hcontent']
  rw [hmargin] at hindent
  have hsplit : ∀ text, before.takeWhile isMargin ++ (before.dropWhile isMargin ++ text) =
      before ++ text := by
    intro text
    rw [← List.append_assoc, List.takeWhile_append_dropWhile]
  refine ⟨hindent, ?_, ?_⟩
  · have htab' : '\t' ∉ spaces := by simp [hspaces]
    rw [hcontent] at htab
    simp only [List.mem_append, List.mem_cons, not_or] at htab ⊢
    exact ⟨htab.1, htab', htab.2.2⟩
  · have hvalue : trimEnd value = value := by
      rw [hmargin, hcontent, hline, hsplit, List.append_cancel_left_eq,
        List.append_cancel_left_eq, List.cons.injEq] at hwhole
      exact hwhole.2.symm
    rw [halign, hvalue, hsplit]

/-! ## Aligned lines are of the same kind -/

/-- A word and a space at the start of a text that goes on with a space are at the start of what is
before that space, or the word is all there is. -/
theorem prefix_space_of_append_space {word front rest : List Char} (hword : ' ' ∉ word)
    (h : word ++ [' '] <+: front ++ ' ' :: rest) : word ++ [' '] <+: front ∨ front = word := by
  have hprefix : word <+: front :=
    prefix_of_append_space hword ((List.prefix_append word [' ']).trans h)
  obtain ⟨tail, rfl⟩ := hprefix
  cases tail with
  | nil => exact .inr (List.append_nil word)
  | cons c tail =>
    rw [List.append_assoc, List.prefix_append_right_inj, List.cons_append,
      List.cons_prefix_cons] at h
    refine .inl ⟨tail, ?_⟩
    rw [h.1, List.append_assoc]
    rfl

theorem Assigns.trim_before {before blanks value : List Char} (h : Assigns before blanks value) :
    Text.trim before = trimStart before := by
  rw [← trimStart_trimEnd, h.trimmed]

theorem Assigns.trimStart_ne_nil {before blanks value : List Char}
    (h : Assigns before blanks value) : trimStart before ≠ [] := by
  rw [trimStart, Ne, List.dropWhile_eq_nil_iff, ← List.all_eq_true, h.ink]
  exact Bool.false_ne_true

/-- A line of code within a function body stays one when it is aligned, unless something is assigned
to the word `case`. -/
theorem IsPlainCode.alignLine {level : Nat} {line : Line} (h : IsPlainCode line)
    (hlevel : 0 < level) (hfixed : normalize level line = line)
    (hcase : ∀ parts, splitAssignment? line = some parts → trim parts.1 ≠ caseWord)
    (offset : Nat) : IsPlainCode (alignLine offset line) := by
  have hstart : ∀ c, isBlank c = false → (Source.alignLine offset line).head? ≠ some c := by
    intro c hc hhead
    rw [← normalize_alignLine hfixed offset, head?_normalize_eq_some_iff hc] at hhead
    omega
  rcases alignLine_cases offset line with
    ⟨-, halign⟩ | ⟨before, blanks, spaces, value, hassigns, -, hassigns', hspaces, hline, halign⟩
  · rwa [halign]
  obtain ⟨n, hn⟩ : ∃ n, max (offset - width before) 1 = n + 1 :=
    Nat.exists_eq_add_one.2 (by omega)
  have htrim : trim line = trimStart before ++ (blanks ++ '=' :: trimEnd value) := by
    rw [hline, hassigns.trim]
  have htrim' : trim (Source.alignLine offset line) =
      trimStart before ++ ' ' :: (List.replicate n ' ' ++ '=' :: trimEnd value) := by
    rw [halign, hassigns'.trim, hspaces, hn, List.replicate_succ, List.cons_append]
  -- A word without blanks is at the start of both lines or of none.
  have hword : ∀ word, ' ' ∉ word → word <+: trim (Source.alignLine offset line) →
      word <+: trim line := by
    intro word hspace hprefix
    rw [htrim'] at hprefix
    rw [htrim]
    exact (prefix_of_append_space hspace hprefix).trans (List.prefix_append _ _)
  refine ⟨⟨?_, fun hprefix => h.no_comment (hword _ (by decide) hprefix),
    fun hprefix => h.no_remark (hword _ (by decide) hprefix), ?_, ?_, hstart _ (by decide), ?_,
    fun hprefix => h.no_default (hword _ (by decide) hprefix), ?_⟩, ?_⟩
  · simp [htrim']
  · have hhash := h.no_hash
    rw [htrim, List.head?_append_of_ne_nil _ hassigns.trimStart_ne_nil] at hhash
    rwa [htrim', List.head?_append_of_ne_nil _ hassigns.trimStart_ne_nil]
  · intro hopen
    rw [trimEnd_eq_singleton_iff (by decide)] at hopen
    exact hstart _ (by decide) hopen.1
  · intro hlabel
    have hlabel' : caseWord ++ [' '] <+:
        trimStart before ++ ' ' :: (List.replicate n ' ' ++ '=' :: trimEnd value) := by
      rw [← htrim']
      exact hlabel
    rcases prefix_space_of_append_space (by decide) hlabel' with hlabel | hword
    · exact h.no_case (by rw [htrim]; exact hlabel.trans (List.prefix_append _ _))
    · refine hcase (before, '=' :: value) ?_ (hassigns.trim_before.trans hword)
      rw [hline, hassigns.splitAssignment?]
  · intro hbreak
    have hmem : '=' ∈ trim (Source.alignLine offset line) := by simp [htrim']
    rw [hbreak] at hmem
    exact absurd hmem (by decide)
  · intro hmem
    refine h.no_parenthesis ?_
    rw [← mem_ink_iff (by decide) (trim line), ink_trim, ← ink_alignLine offset, ← ink_trim]
    exact (mem_ink_iff (by decide) _).2 hmem

end Stencil.Source
