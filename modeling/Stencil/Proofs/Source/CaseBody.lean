import Stencil.Proofs.Source.Place

/-!
# The lines under a case label

A case is open behind its label until a line ends it: another label, a `break;`, or a closing brace
at the start of a line, whichever block the brace closes (`endsCase`, `OpenCase`). Layout remembers
the level of the case that is open, if one is (`phaseAt_of_isLabel`). Under it every line but a
label and a closing brace is indented below the label; elsewhere a line has the level of its own
(`PhaseAt.lt_lineLevel_iff`). So the lines under an open case have more tabs than its label
(`exists_tabs_lt_of_openCase`), and two labels of one case have as many
(`not_tabs_lt_of_twoLabels`).
-/

namespace Stencil.Source

open Text

/-- A line that starts with a closing brace. -/
def closesBlock (kind : LineKind) (line : Line) : Bool :=
  match kind with
  | .closeBrace => true
  | .code _ => (trimStart line).head? = some '}'
  | _ => false

/-- A line that is not indented under a case label: a label, or one that starts with a closing
brace. -/
def outdents (kind : LineKind) (line : Line) : Bool :=
  kind = .caseLabel || closesBlock kind line

/-- A line that ends the case before it. -/
def endsCase (kind : LineKind) (line : Line) : Bool :=
  kind = .breakStatement || outdents kind line

/-! ## One line -/

namespace Layout

/-- The level of a case label, for the lines under it. -/
def labelLevel (s : Layout) (line : Line) : Nat :=
  max (width (line.takeWhile isBlank) / tabWidth) s.depth

/-- The level of a line that stands under no label. -/
def ownLevel (s : Layout) (kind : LineKind) : Nat :=
  if kind = .closeBrace then s.depth - 1 else s.depth

variable {s : Layout} {kind : LineKind} {line : Line}

theorem phase_giving (hs : s.inDeclarations = false) (line : Line) :
    (s.giving line).phase = s.phase := by
  unfold giving
  split
  · next held hphase => exact absurd hphase (ne_declarations hs held)
  · rfl

theorem phase_emit_of_endsCase (hs : s.inDeclarations = false) (hkind : kind ≠ .caseLabel)
    (h : endsCase kind line = true) : (s.emit kind line).1.phase = .plain := by
  cases kind with
  | caseLabel => exact absurd rfl hkind
  | closeBrace => rfl
  | breakStatement =>
    cases hphase : s.phase with
    | declarations held => exact absurd hphase (ne_declarations hs held)
    | plain => simp [emit, hphase]
    | caseBody level => simp [emit, hphase]
  | code hasParenthesis =>
    rw [emit_code]
    exact phaseAfterCode_of_closes (by simpa [endsCase, outdents, closesBlock] using h) hs
  | _ => cases h

/-- Inside braces no other line changes the phase. -/
theorem phase_emit_of_not_endsCase (hdepth : 0 < s.depth) (h : endsCase kind line = false) :
    (s.emit kind line).1.phase = s.phase := by
  cases kind with
  | openBrace => exact if_neg fun hzero => hdepth.ne' hzero.1
  | closeBrace => cases h
  | caseLabel => cases h
  | breakStatement => cases h
  | code hasParenthesis =>
    rw [emit_code]
    exact phaseAfterCode_of_not_closes (by simpa [endsCase, outdents, closesBlock] using h) _
  | _ => rfl

theorem lineLevel_of_outdents (hs : s.inDeclarations = false) (h : outdents kind line = true) :
    s.lineLevel kind line = s.ownLevel kind := by
  cases kind with
  | closeBrace => rfl
  | caseLabel => rfl
  | code hasParenthesis =>
    have hphase : phaseAfterCode line s.phase = .plain :=
      phaseAfterCode_of_closes (by simpa [outdents, closesBlock] using h) hs
    simp [lineLevel, level, hphase, ownLevel]
  | _ => cases h

theorem lineLevel_of_not_outdents (hkind : kind ≠ .preprocessor) (h : outdents kind line = false) :
    s.lineLevel kind line = s.level := by
  cases kind with
  | preprocessor => exact absurd rfl hkind
  | closeBrace => cases h
  | caseLabel => cases h
  | code hasParenthesis =>
    have hphase : phaseAfterCode line s.phase = s.phase :=
      phaseAfterCode_of_not_closes (by simpa [outdents, closesBlock] using h) s.phase
    simp only [lineLevel, hphase]
  | _ => rfl

end Layout

/-! ## From a label on -/

variable {lines : List Line} {i j k m : Fin lines.length}

/-- The line at `k` is a label, and no line behind it and before the place `n` ends its case. -/
structure OpenCase (lines : List Line) (k : Fin lines.length) (n : Nat) : Prop where
  lt : k < n
  isLabel : kindAt lines k = .caseLabel
  goes_on : ∀ m : Fin lines.length, k < m → m < n → endsCase (kindAt lines m) (lines.get m) = false

instance {n : Nat} : Decidable (OpenCase lines k n) :=
  decidable_of_iff (k < n ∧ kindAt lines k = .caseLabel ∧
      ∀ m : Fin lines.length, k < m → m < n → endsCase (kindAt lines m) (lines.get m) = false)
    ⟨fun h => ⟨h.1, h.2.1, h.2.2⟩, fun h => ⟨h.lt, h.isLabel, h.goes_on⟩⟩

/-- The level that the lines under the label at a place are indented below. -/
def labelLevel (lines : List Line) (k : Fin lines.length) : Nat :=
  (stateBefore lines k).labelLevel (lines.get k)

theorem openCase_of_isLabel (h : kindAt lines m = .caseLabel) : OpenCase lines m (m + 1) where
  lt := Nat.lt_succ_self m
  isLabel := h
  goes_on _ hmn hnm := absurd (Nat.lt_succ_iff.1 hnm) (Nat.not_le.2 hmn)

theorem OpenCase.eq_of_endsCase (h : OpenCase lines k (m + 1))
    (hends : endsCase (kindAt lines m) (lines.get m) = true) : k = m := by
  rcases Nat.lt_succ_iff_lt_or_eq.1 h.lt with hlt | heq
  · rw [h.goes_on m hlt (Nat.lt_succ_self m)] at hends
    cases hends
  · exact Fin.ext heq

/-- Only one case is open at a time. -/
theorem OpenCase.eq {n : Nat} (h : OpenCase lines k n) (h' : OpenCase lines m n) : k = m := by
  rcases lt_trichotomy k m with hlt | heq | hgt
  · have hends := h.goes_on m hlt h'.lt
    rw [h'.isLabel] at hends
    cases hends
  · exact heq
  · have hends := h'.goes_on k hgt h.lt
    rw [h.isLabel] at hends
    cases hends

theorem openCase_succ_iff (hgoes : endsCase (kindAt lines m) (lines.get m) = false) :
    OpenCase lines k (m + 1) ↔ OpenCase lines k m := by
  constructor
  · intro h
    rcases Nat.lt_succ_iff_lt_or_eq.1 h.lt with hlt | heq
    · exact ⟨hlt, h.isLabel, fun n hkn hnm => h.goes_on n hkn (Nat.lt_succ_of_lt hnm)⟩
    · rw [← Fin.ext heq, h.isLabel] at hgoes
      cases hgoes
  · intro h
    refine ⟨Nat.lt_succ_of_lt h.lt, h.isLabel, fun n hkn hnm => ?_⟩
    rcases Nat.lt_succ_iff_lt_or_eq.1 hnm with hlt | heq
    · exact h.goes_on n hkn hlt
    · rwa [Fin.ext heq]

theorem stateBefore_phase_succ
    (h : (stateBefore lines m).inDeclarations = true →
      Layout.endsDeclarations (kindAt lines m) = true) :
    (stateBefore lines (m + 1)).phase =
      (((stateBefore lines m).giving (lines.get m)).emit (kindAt lines m) (lines.get m)).1.phase :=
  by rw [stateBefore_succ, Layout.step_of_gives h, kindAt]

/-- The phase at a place behind a label: that of the case that is open there, or else none. -/
inductive PhaseAt (lines : List Line) (i : Fin lines.length) (n : Nat) : Prop where
  | caseBody (k : Fin lines.length) (hik : i ≤ k) (hopen : OpenCase lines k n)
      (hphase : (stateBefore lines n).phase = .caseBody (labelLevel lines k + 1))
  | plain (hclosed : ∀ k, i ≤ k → ¬OpenCase lines k n)
      (hphase : (stateBefore lines n).phase = .plain)

theorem PhaseAt.inDeclarations_eq_false {n : Nat} (h : PhaseAt lines i n) :
    (stateBefore lines n).inDeclarations = false := by
  cases h with
  | caseBody k hik hopen hphase => rw [Layout.inDeclarations, hphase]
  | plain hclosed hphase => rw [Layout.inDeclarations, hphase]

/-- What one line does to the phase. -/
theorem PhaseAt.succ (him : i < m) (hdepth : 0 < (stateBefore lines m).depth)
    (h : PhaseAt lines i m) : PhaseAt lines i (m + 1) := by
  have hs := h.inDeclarations_eq_false
  have hgives : (stateBefore lines m).inDeclarations = true →
      Layout.endsDeclarations (kindAt lines m) = true := fun htrue => by
    rw [hs] at htrue
    cases htrue
  have hphase := stateBefore_phase_succ hgives
  have hsame := Layout.phase_giving hs (lines.get m)
  -- A line that ends the case leaves none open, but for a label, which opens its own.
  cases hends : endsCase (kindAt lines m) (lines.get m) with
  | true =>
    by_cases hlabel : kindAt lines m = .caseLabel
    · rw [hlabel] at hphase
      exact .caseBody m him.le (openCase_of_isLabel hlabel) hphase
    · refine .plain (fun k _ hopen => hlabel ?_) ?_
      · rw [← hopen.eq_of_endsCase hends]
        exact hopen.isLabel
      · rw [hphase]
        refine Layout.phase_emit_of_endsCase ?_ hlabel hends
        rwa [Layout.inDeclarations, hsame]
  | false =>
    have hkept := Layout.phase_emit_of_not_endsCase
      (s := (stateBefore lines m).giving (lines.get m)) hdepth hends
    rw [hkept, hsame] at hphase
    cases h with
    | caseBody k hik hopen hbody =>
      exact .caseBody k hik ((openCase_succ_iff hends).2 hopen) (hphase.trans hbody)
    | plain hclosed hplain =>
      exact .plain (fun k hik hopen => hclosed k hik ((openCase_succ_iff hends).1 hopen))
        (hphase.trans hplain)

/-- What the lines behind a label do to the phase, as long as there are open braces. -/
theorem phaseAt_of_isLabel (hlabel : kindAt lines i = .caseLabel) {n : Nat} (hin : i + 1 ≤ n)
    (hn : n ≤ lines.length) (hinside : Inside lines i n) : PhaseAt lines i n := by
  induction n, hin using Nat.le_induction with
  | base =>
    -- The label is given out even where lines are held back: it ends the declarations.
    have hphase := stateBefore_phase_succ (m := i) fun _ => by rw [hlabel]; rfl
    rw [hlabel] at hphase
    exact .caseBody i le_rfl (openCase_of_isLabel hlabel) hphase
  | succ n hin ih =>
    have hbefore := ih (Nat.le_of_succ_le hn) fun k hik hkn => hinside k hik (Nat.le_succ_of_le hkn)
    have hdepth := hinside n (Nat.le_of_succ_le hin) (Nat.le_succ n)
    exact PhaseAt.succ (m := ⟨n, hn⟩) (Nat.lt_of_succ_le hin) hdepth hbefore

/-! ## Levels under labels -/

/-- Where a case is open, lines other than labels and closing braces are indented below its label;
where none is, a line has the level of its own. -/
theorem PhaseAt.lt_lineLevel_iff (h : PhaseAt lines i j) (hkind : kindAt lines j ≠ .preprocessor)
    (t : Nat) :
    t < ((stateBefore lines j).giving (lines.get j)).lineLevel (kindAt lines j) (lines.get j) ↔
      t < (stateBefore lines j).ownLevel (kindAt lines j) ∨
        outdents (kindAt lines j) (lines.get j) = false ∧
          ∃ k, i ≤ k ∧ OpenCase lines k j ∧ t ≤ labelLevel lines k := by
  have hs := h.inDeclarations_eq_false
  have hsame := Layout.phase_giving hs (lines.get j)
  cases houtdents : outdents (kindAt lines j) (lines.get j) with
  | true =>
    have hs' : ((stateBefore lines j).giving (lines.get j)).inDeclarations = false := by
      rwa [Layout.inDeclarations, hsame]
    rw [Layout.lineLevel_of_outdents hs' houtdents]
    simp [Layout.ownLevel, Layout.giving]
  | false =>
    have hbrace : kindAt lines j ≠ .closeBrace := by
      intro hbrace
      rw [hbrace] at houtdents
      cases houtdents
    rw [Layout.lineLevel_of_not_outdents hkind houtdents, Layout.level, hsame, Layout.ownLevel,
      if_neg hbrace]
    cases h with
    | caseBody k hik hopen hphase =>
      rw [hphase]
      constructor
      · intro hlt
        rcases lt_max_iff.1 hlt with hbody | hdepth
        · exact .inr ⟨rfl, k, hik, hopen, Nat.lt_succ_iff.1 hbody⟩
        · exact .inl hdepth
      · rintro (hdepth | ⟨-, k', -, hopen', hle⟩)
        · exact lt_max_of_lt_right hdepth
        · rw [hopen'.eq hopen] at hle
          exact lt_max_of_lt_left (Nat.lt_succ_of_le hle)
    | plain hclosed hphase =>
      rw [hphase]
      constructor
      · exact .inl
      · rintro (hdepth | ⟨-, k, hik, hopen, -⟩)
        · exact hdepth
        · exact absurd hopen (hclosed k hik)

theorem content_ne_nil_of_isLabel (h : kindAt lines i = .caseLabel) :
    content (lines.get i) ≠ [] := by
  refine content_ne_nil_of_trim fun htrim => ?_
  rw [← classify_eq_blank_iff, ← kindAt_eq_classify (by simp [h]), h] at htrim
  cases htrim

theorem head?_of_closeBrace (h : kindAt lines i = .closeBrace) :
    (lines.get i).head? = some '}' := by
  rwa [← classify_eq_closeBrace_iff, ← kindAt_eq_classify (by simp [h])]

/-- The lines behind a label keep their places. -/
theorem PhaseAt.getElem?_formatLines (h : PhaseAt lines i j)
    (hdepth : 0 < (stateBefore lines j).depth) (hkind : kindAt lines j ≠ .preprocessor) :
    (formatLines lines)[j.val]? = some (normalize
      (((stateBefore lines j).giving (lines.get j)).lineLevel (kindAt lines j) (lines.get j))
      (lines.get j)) := by
  refine Source.getElem?_formatLines (fun htrue => ?_) ?_
  · rw [h.inDeclarations_eq_false] at htrue
    cases htrue
  · by_cases hbrace : kindAt lines j = .closeBrace
    · exact .inr (head?_of_closeBrace hbrace)
    · refine .inl ((h.lt_lineLevel_iff hkind 0).2 (.inl ?_))
      rwa [Layout.ownLevel, if_neg hbrace]

/-! ## Tabs under labels -/

/-- Inside braces a label keeps its place and is at the level of the open braces. -/
theorem getElem?_formatLines_of_isLabel (hlabel : kindAt lines k = .caseLabel)
    (hdepth : 0 < (stateBefore lines k).depth) :
    (formatLines lines)[k.val]? = some (normalize (stateBefore lines k).depth (lines.get k)) := by
  have hgives := getElem?_formatLines (i := k) (fun _ => by rw [hlabel]; rfl)
    (.inl (by rw [hlabel]; exact hdepth))
  rwa [hlabel] at hgives

/-- A label has at most the tabs of its level. -/
theorem leadingTabs_le_labelLevel (hlabel : kindAt lines k = .caseLabel) :
    leadingTabs (normalize (stateBefore lines k).depth (lines.get k)) ≤ labelLevel lines k := by
  rw [leadingTabs_normalize (content_ne_nil_of_isLabel hlabel)]
  refine max_le_max (Nat.div_le_div_right ?_) le_rfl
  obtain ⟨rest, hrest⟩ := margin_prefix_takeWhile (lines.get k)
  rw [← hrest, width_append]
  exact (Nat.le_add_right _ _).trans (add_length_le_widthFrom _ rest)

/-- Between a label and a line behind it there are open braces throughout. Then both keep their
places. If the line is a label as well, it has the tabs of its margin or one for every open brace.
If it is neither a label nor starts with a closing brace, and the case of the first label is open
there, or that of a label behind it with no fewer tabs, the line has more tabs than the label. -/
theorem exists_tabs_lt_of_openCase (hij : i < j) (hlabel : kindAt lines i = .caseLabel)
    (hinside : Inside lines i j) (hkind : kindAt lines j ≠ .preprocessor)
    (hne : trim (lines.get j) ≠ []) :
    ∃ label line,
      (formatLines lines)[i.val]? = some label ∧ ink label = ink (lines.get i) ∧
      (formatLines lines)[j.val]? = some line ∧ ink line = ink (lines.get j) ∧
      (kindAt lines j = .caseLabel →
        leadingTabs line =
          max (width (margin (lines.get j)) / tabWidth) (stateBefore lines j).depth) ∧
      (outdents (kindAt lines j) (lines.get j) = false →
        ∀ k last, i ≤ k → OpenCase lines k j → (formatLines lines)[k.val]? = some last →
          leadingTabs label ≤ leadingTabs last → leadingTabs label < leadingTabs line) := by
  have hphase := phaseAt_of_isLabel hlabel hij j.isLt.le hinside
  have htabs := leadingTabs_normalize (content_ne_nil_of_trim hne)
    (((stateBefore lines j).giving (lines.get j)).lineLevel (kindAt lines j) (lines.get j))
  refine ⟨_, _, getElem?_formatLines_of_isLabel hlabel (hinside i le_rfl hij.le),
    ink_normalize _ _, hphase.getElem?_formatLines (hinside j hij.le le_rfl) hkind,
    ink_normalize _ _, fun hlabel' => ?_, fun houtdents k last hik hopen hlast hle => ?_⟩
  · rw [htabs, hlabel']
    rfl
  · -- A label has no more tabs than its level, and the line is indented below that.
    have hplace := getElem?_formatLines_of_isLabel hopen.isLabel
      (hinside k hik (Nat.le_of_lt hopen.lt))
    rw [hplace, Option.some.injEq] at hlast
    rw [← hlast] at hle
    rw [htabs, lt_max_iff, hphase.lt_lineLevel_iff hkind]
    exact .inr (.inr ⟨houtdents, k, hik, hopen,
      hle.trans (leadingTabs_le_labelLevel hopen.isLabel)⟩)

/-- A case with two labels. -/
def twoLabels : List Line :=
  ["f()", "\x7b", "\tswitch( x )", "\t\x7b", "\t\tcase 1:", "\t\tcase 2:", "\t\t\tg();",
    "\t\t\tbreak;", "\t\x7d", "\x7d"].map String.toList

theorem tabs_lt_of_twoLabels :
    ∃ label line, (formatLines twoLabels)[4]? = some label ∧
      (formatLines twoLabels)[6]? = some line ∧ leadingTabs label < leadingTabs line := by
  have hlabel : kindAt twoLabels ⟨4, by decide⟩ = .caseLabel := by decide +kernel
  have hinside : Inside twoLabels 4 6 := by decide +kernel
  have hkind : kindAt twoLabels ⟨6, by decide⟩ ≠ .preprocessor := by decide +kernel
  have hopen : OpenCase twoLabels ⟨5, by decide⟩ 6 := by decide +kernel
  have hlast : (formatLines twoLabels)[5]? = some "\t\tcase 2:".toList := by decide +kernel
  have hfirst : (formatLines twoLabels)[4]? = some "\t\tcase 1:".toList := by decide +kernel
  obtain ⟨label, line, hget, -, hline, -, -, htabs⟩ :=
    exists_tabs_lt_of_openCase (by decide) hlabel hinside hkind (by decide +kernel)
  refine ⟨label, line, hget, hline, htabs (by decide +kernel) _ _ (by decide) hopen hlast ?_⟩
  rw [hfirst, Option.some.injEq] at hget
  rw [← hget]
  decide

/-- The number of lines between two places that are the brace and nothing else. -/
def bracesBetween (brace : Char) (lines : List Line) (i n : Nat) : Nat :=
  ((lines.take n).drop (i + 1)).countP (trim · = [brace])

/-- The `break;` of a case: the first that stands in no block that was opened behind the label.
Every brace between them has a line of its own, and the braces are balanced. -/
structure IsBreakOf (lines : List Line) (i b : Fin lines.length) : Prop where
  lt : i < b
  isBreak : kindAt lines b = .breakStatement
  alone : ∀ m, i < m → m < b → ('{' ∈ lines.get m → trim (lines.get m) = ['{']) ∧
    ('}' ∈ lines.get m → trim (lines.get m) = ['}'])
  nested : ∀ m, i < m → m < b → bracesBetween '}' lines i m ≤ bracesBetween '{' lines i m
  balanced : bracesBetween '}' lines i b = bracesBetween '{' lines i b
  first : ∀ m, i < m → m < b → kindAt lines m = .breakStatement →
    bracesBetween '}' lines i m < bracesBetween '{' lines i m

/-- A label does not stand under another: not every line from a label to its `break;` has more tabs
than the label. -/
theorem not_tabs_lt_of_twoLabels :
    ¬∀ i b j : Fin twoLabels.length, InFunction twoLabels i →
      kindAt twoLabels i = .caseLabel → IsBreakOf twoLabels i b → i < j → j ≤ b →
      kindAt twoLabels j ≠ .preprocessor → trim (twoLabels.get j) ≠ [] →
      ∀ label line, (formatLines twoLabels)[i.val]? = some label →
        (formatLines twoLabels)[j.val]? = some line → leadingTabs label < leadingTabs line := by
  intro h
  have hbody : InFunction twoLabels ⟨4, by decide⟩ := by decide +kernel
  have hlabel : kindAt twoLabels ⟨4, by decide⟩ = .caseLabel := by decide +kernel
  have hbreak : IsBreakOf twoLabels ⟨4, by decide⟩ ⟨7, by decide⟩ := by
    constructor <;> decide +kernel
  have hkind : kindAt twoLabels ⟨5, by decide⟩ ≠ .preprocessor := by decide +kernel
  have hne : trim (twoLabels.get ⟨5, by decide⟩) ≠ [] := by decide +kernel
  have hfirst : (formatLines twoLabels)[4]? = some "\t\tcase 1:".toList := by decide +kernel
  have hsecond : (formatLines twoLabels)[5]? = some "\t\tcase 2:".toList := by decide +kernel
  have htabs := h _ _ _ hbody hlabel hbreak (by decide) (by decide) hkind hne _ _ hfirst hsecond
  exact absurd htabs (by decide)

end Stencil.Source
