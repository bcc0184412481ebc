import Stencil.Proofs.Source.Kind
import Stencil.Proofs.Source.Layout

/-!
# A second pass over the lines given out

Layout reads what a line is off the line, and gives the line out changed. A second pass over the
lines given out *follows* the first: it remembers the same, except that it does not count the braces
that the first pass indented (`Layout.Follows`). It gives every line out as it is
(`Layout.Follows.step`), if every line of the text *keeps* what the first pass read off it
(`Layout.keeps`).
-/

namespace Stencil.Source

open Text

/-! ## Marks that stay -/

theorem head?_trimStart_normalize {c : Char} (hc : isBlank c = false) (level : Nat)
    (line : Line) :
    (trimStart (normalize level line)).head? = some c ↔ (trimStart line).head? = some c := by
  rw [← head?_trim, ← head?_trim, trim_normalize,
    (respaced_expandTabs_zero (trim line)).head?_eq_some_iff hc]

theorem getLast?_trimEnd_normalize {c : Char} (hc : isBlank c = false) (level : Nat)
    (line : Line) :
    (trimEnd (normalize level line)).getLast? = some c ↔ (trimEnd line).getLast? = some c := by
  rw [← getLast?_trim, ← getLast?_trim, trim_normalize,
    (respaced_expandTabs_zero (trim line)).getLast?_eq_some_iff hc]

/-- The column of the first ink of a line, if there are only spaces and tabs before it. -/
theorem width_takeWhile_normalize {line : Line} (hmargin : line.takeWhile isBlank = margin line)
    (hne : trim line ≠ []) (level : Nat) :
    width ((normalize level line).takeWhile isBlank) =
      max (width (line.takeWhile isBlank)) (level * tabWidth) := by
  have hcontent : content line = trim line := by
    have hsplit : margin line ++ line.dropWhile isMargin = margin line ++ trimStart line := by
      conv => rhs; rw [← hmargin]
      exact (margin_append_dropWhile line).trans List.takeWhile_append_dropWhile.symm
    rw [content, List.append_cancel_left hsplit, trim]
  cases htrim : trim line with
  | nil => exact absurd htrim hne
  | cons c cs =>
    have hc : isBlank c = false := by
      have hhead := head?_trim line
      have hnot := List.head?_dropWhile_not isBlank line
      rw [← show trimStart line = line.dropWhile isBlank from rfl, ← hhead, htrim] at hnot
      simpa using hnot
    rw [normalize_of_content_ne_nil (hcontent ▸ hne), hcontent, htrim,
      expandTabs_cons (isMargin_of_ink hc), List.replicate_zero, List.nil_append,
      List.takeWhile_append_of_pos (List.all_eq_true.1 (all_isBlank_indentation _ _)),
      List.takeWhile_cons_of_neg (by simp [hc]), List.append_nil, width_indentation, hmargin]

/-! ## Lines that keep what was read off them -/

/-- Whether a line of a run is the same declaration and of the same kind after it is aligned. -/
def keepsAligned (line : Line) : Bool :=
  (Declaration.parse? line).all (fun d => !d.name.contains '=') &&
    (splitAssignment? line).all fun parts => trim parts.1 != caseWord

namespace Layout

/-- Whether layout is at the start of a function body. -/
def inDeclarations (s : Layout) : Bool :=
  match s.phase with
  | .declarations _ => true
  | _ => false

/-- Whether a second pass reads off the line, as it is given out, what the first pass reads off
`line`. An opening brace that is indented neither starts a function body nor ends the declarations
of one; before a case label there are only spaces and tabs; a line of code has no tab behind a word
`case` at its start, and is what it was after it is aligned. -/
def keeps (s : Layout) (line : Line) : Bool :=
  match (classify s.inComment line).1 with
  | .openBrace =>
    s.level = 0 || !s.inDeclarations && !(s.depth = 0 && s.afterParenthesis)
  | .caseLabel => line.takeWhile isBlank = margin line
  | .code _ =>
    !(caseWord ++ ['\t']).isPrefixOf (trim line) &&
      (!s.holdsInRun line || keepsAligned (normalize s.depth line))
  | _ => true

/-- Whether all of the lines keep what layout reads off them. -/
def isSteady (s : Layout) : List Line → Bool
  | [] => true
  | line :: lines => s.keeps line && isSteady (s.step line).1 lines

/-- The start of a function body. -/
def bodyStart : Layout := { phase := .declarations [], depth := 1 }

/-- The second pass remembers `t` where the first remembers `s`: all but the number of open braces
is the same, and that as well at the start of a function body. -/
structure Follows (t s : Layout) : Prop where
  eq : t = { s with depth := t.depth }
  depth_le : t.depth ≤ s.depth
  depth_le_one : t.depth ≤ 1
  body : s.inDeclarations = true → s = bodyStart ∧ t = bodyStart

variable {s t : Layout}

theorem ne_declarations (hs : s.inDeclarations = false) (held : List (LineKind × Line)) :
    s.phase ≠ .declarations held := by
  intro hphase
  simp [inDeclarations, hphase] at hs

theorem exists_of_inDeclarations (hs : s.inDeclarations = true) :
    ∃ held, s.phase = .declarations held := by
  unfold inDeclarations at hs
  split at hs
  · next held hphase => exact ⟨held, hphase⟩
  · cases hs

theorem pending_of_not_inDeclarations (hs : s.inDeclarations = false) : s.pending = [] := by
  unfold pending
  split
  · next held hphase => exact absurd hphase (ne_declarations hs held)
  · rfl

/-- Outside of declarations the second pass may remember fewer braces. -/
theorem follows_of_phase {phase : Phase} (hphase : ∀ held, phase ≠ .declarations held)
    {depth depth' : Nat} (hle : depth' ≤ depth) (hone : depth' ≤ 1) (inComment after : Bool) :
    Follows ⟨phase, depth', inComment, after⟩ ⟨phase, depth, inComment, after⟩ where
  eq := rfl
  depth_le := hle
  depth_le_one := hone
  body hbody := by
    cases phase with
    | declarations held => exact absurd rfl (hphase held)
    | plain => cases hbody
    | caseBody level => cases hbody

theorem level_le_level {depth : Nat} (h : depth ≤ s.depth) :
    level { s with depth } ≤ s.level := by
  unfold level
  cases s.phase with
  | caseBody level => exact max_le_max le_rfl h
  | plain => exact h
  | declarations _ => exact h

theorem place_of_ne {kind : LineKind} (h : kind ≠ .preprocessor) (s : Layout) (line : Line) :
    s.place kind line = normalize s.level line := by
  cases kind with
  | preprocessor => exact absurd rfl h
  | _ => rfl

/-- A line that was placed stays where it is at a lower level. -/
theorem place_place (h : t.level ≤ s.level) (kind : LineKind) (line : Line) :
    t.place kind (s.place kind line) = s.place kind line := by
  by_cases hkind : kind = .preprocessor
  · subst hkind
    exact normalize_normalize 0 0 line
  · rw [place_of_ne hkind, place_of_ne hkind, normalize_normalize, max_eq_left h]

/-! ## Lines that are given out at once -/

/-- The phase after a line of code: a closing brace ends the lines under a case label. -/
def phaseAfterCode (line : Line) : Phase → Phase
  | .caseBody level => if (trimStart line).head? = some '}' then .plain else .caseBody level
  | phase => phase

theorem emit_code (s : Layout) (hasParenthesis : Bool) (line : Line) :
    s.emit (.code hasParenthesis) line =
      let e := { s with phase := phaseAfterCode line s.phase }
      ({ e with afterParenthesis := (trimEnd line).getLast? = some ')' },
        normalize e.level line) := by
  unfold emit phaseAfterCode
  cases s.phase <;> rfl

theorem phaseAfterCode_normalize (level : Nat) (line : Line) :
    phaseAfterCode (normalize level line) = phaseAfterCode line := by
  funext phase
  cases phase with
  | caseBody level =>
    simp only [phaseAfterCode, head?_trimStart_normalize (show isBlank '}' = false by decide)]
  | _ => rfl

theorem phaseAfterCode_ne_declarations (hs : s.inDeclarations = false) (line : Line)
    (held : List (LineKind × Line)) : phaseAfterCode line s.phase ≠ .declarations held := by
  cases hphase : s.phase with
  | declarations held => exact absurd hphase (ne_declarations hs held)
  | plain => simp [phaseAfterCode]
  | caseBody level =>
    simp only [phaseAfterCode]
    split <;> exact Phase.noConfusion

theorem phaseAfterCode_of_closes {line : Line} (h : (trimStart line).head? = some '}')
    (hs : s.inDeclarations = false) : phaseAfterCode line s.phase = .plain := by
  cases hphase : s.phase with
  | declarations held => exact absurd hphase (ne_declarations hs held)
  | plain => rfl
  | caseBody level => exact if_pos h

theorem phaseAfterCode_of_not_closes {line : Line} (h : (trimStart line).head? ≠ some '}')
    (phase : Phase) : phaseAfterCode line phase = phase := by
  cases phase with
  | caseBody level => exact if_neg h
  | _ => rfl

/-- The second pass gives out what the first gives out, and follows it. -/
def Repeats (second first : Layout × Line) : Prop :=
  second.2 = first.2 ∧ second.1.Follows first.1

section emit

variable {line : Line} {depth : Nat} (hle : depth ≤ s.depth) (hone : depth ≤ 1)

include hle hone

/-- A brace that starts a function body, or is given out anywhere else in the first column. -/
theorem repeats_openBrace (hs : s.inDeclarations = false) (hlevel : s.level = 0)
    (hcomment : s.inComment = false) :
    Repeats (emit { s with depth } .openBrace (s.emit .openBrace line).2)
      (s.emit .openBrace line) := by
  have hdepth : s.depth = 0 := by
    unfold level at hlevel
    split at hlevel <;> omega
  have hdepth' : depth = 0 := by omega
  refine ⟨place_place (level_le_level hle) .openBrace line, ?_⟩
  simp only [emit, hdepth, hdepth', true_and, hcomment]
  split
  · exact ⟨rfl, le_rfl, le_rfl, fun _ => ⟨rfl, rfl⟩⟩
  · exact follows_of_phase (ne_declarations hs) le_rfl le_rfl _ _

/-- An opening brace that is given out indented. -/
theorem repeats_openBrace_code (hs : s.inDeclarations = false) (hbrace : trimEnd line = ['{'])
    (hbody : ¬(s.depth = 0 ∧ s.afterParenthesis = true)) (hasParenthesis : Bool) :
    Repeats (emit { s with depth } (.code hasParenthesis) (s.emit .openBrace line).2)
      (s.emit .openBrace line) := by
  have hcloses : (trimStart (normalize s.level line)).head? ≠ some '}' := by
    rw [Ne, head?_trimStart_normalize (by decide), ← head?_trim]
    simp [((trimEnd_eq_singleton_iff (by decide) line).1 hbrace).2]
  have hafter : (trimEnd (normalize s.level line)).getLast? ≠ some ')' := by
    rw [Ne, getLast?_trimEnd_normalize (by decide), hbrace]
    decide
  have hout : (s.emit .openBrace line).2 = normalize s.level line := rfl
  rw [hout, emit_code, phaseAfterCode_of_not_closes hcloses]
  simp only [emit, hafter, hbody, if_false, decide_false]
  exact ⟨place_place (level_le_level hle) (.code hasParenthesis) line,
    follows_of_phase (ne_declarations hs) (Nat.le_succ_of_le hle) hone _ _⟩

/-- A closing brace that is given out in the first column. -/
theorem repeats_closeBrace :
    Repeats (emit { s with depth } .closeBrace (s.emit .closeBrace line).2)
      (s.emit .closeBrace line) := by
  have hle' : depth - 1 ≤ s.depth - 1 := Nat.sub_le_sub_right hle 1
  have hout : (s.emit .closeBrace line).2 = normalize (s.depth - 1) line := rfl
  constructor
  · exact (normalize_normalize _ _ line).trans (congrArg (normalize · line) (max_eq_left hle'))
  · rw [hout]
    simp only [emit, getLast?_trimEnd_normalize (show isBlank ')' = false by decide)]
    exact follows_of_phase (by simp) hle' (by omega) _ _

/-- A closing brace that is given out indented. -/
theorem repeats_closeBrace_code (hs : s.inDeclarations = false) (hbrace : line.head? = some '}')
    (hdepth : 1 < s.depth) (hasParenthesis : Bool) :
    Repeats (emit { s with depth } (.code hasParenthesis) (s.emit .closeBrace line).2)
      (s.emit .closeBrace line) := by
  have hle' : depth ≤ s.depth - 1 := by omega
  have hcloses : (trimStart (normalize (s.depth - 1) line)).head? = some '}' := by
    rw [head?_trimStart_normalize (by decide), ← head?_trim]
    exact head?_trim_of_head? (by decide) hbrace
  have hout : (s.emit .closeBrace line).2 = normalize (s.depth - 1) line := rfl
  rw [hout, emit_code, phaseAfterCode_of_closes hcloses hs]
  constructor
  · exact (normalize_normalize _ _ line).trans (congrArg (normalize · line) (max_eq_left hle'))
  · simp only [emit, getLast?_trimEnd_normalize (show isBlank ')' = false by decide)]
    exact follows_of_phase (by simp) hle' hone _ _

theorem repeats_caseLabel (hmargin : line.takeWhile isBlank = margin line) (hne : trim line ≠ []) :
    Repeats (emit { s with depth } .caseLabel (s.emit .caseLabel line).2)
      (s.emit .caseLabel line) := by
  have hlevel : max (width ((normalize s.depth line).takeWhile isBlank) / tabWidth) depth =
      max (width (line.takeWhile isBlank) / tabWidth) s.depth := by
    rw [width_takeWhile_normalize hmargin hne]
    unfold tabWidth
    omega
  have hout : (s.emit .caseLabel line).2 = normalize s.depth line := rfl
  constructor
  · exact (normalize_normalize _ _ line).trans (congrArg (normalize · line) (max_eq_left hle))
  · rw [hout]
    simp only [emit, hlevel]
    exact follows_of_phase (by simp) hle hone _ _

theorem repeats_breakStatement (hs : s.inDeclarations = false) :
    Repeats (emit { s with depth } .breakStatement (s.emit .breakStatement line).2)
      (s.emit .breakStatement line) := by
  refine ⟨place_place (level_le_level hle) .breakStatement line, ?_⟩
  refine follows_of_phase (fun held => ?_) hle hone _ _
  split
  · simp
  · exact ne_declarations hs held

theorem repeats_code (hs : s.inDeclarations = false) (hasParenthesis : Bool) :
    Repeats (emit { s with depth } (.code hasParenthesis) (s.emit (.code hasParenthesis) line).2)
      (s.emit (.code hasParenthesis) line) := by
  rw [emit_code, emit_code]
  simp only [phaseAfterCode_normalize,
    getLast?_trimEnd_normalize (show isBlank ')' = false by decide)]
  constructor
  · rw [normalize_normalize, max_eq_left]
    exact level_le_level (s := { s with phase := phaseAfterCode line s.phase }) hle
  · exact follows_of_phase (phaseAfterCode_ne_declarations hs line) hle hone _ _

end emit

/-! ## Steps -/

theorem step_of_not_inDeclarations (hs : s.inDeclarations = false) {line : Line}
    {kind : LineKind} {inComment : Bool} (hkind : classify s.inComment line = (kind, inComment)) :
    s.step line =
      ((emit { s with inComment } kind line).1, [(emit { s with inComment } kind line).2]) := by
  cases hphase : s.phase with
  | declarations held => exact absurd hphase (ne_declarations hs held)
  | plain => simp [step, hphase, hkind]
  | caseBody level => simp [step, hphase, hkind]

theorem not_case_tab_of_keeps {line : Line} (h : s.keeps line = true) (hasParenthesis : Bool)
    (hkind : (classify s.inComment line).1 = .code hasParenthesis) :
    ¬caseWord ++ ['\t'] <+: trim line := by
  rw [keeps, hkind] at h
  simp only [Bool.and_eq_true, Bool.not_eq_true'] at h
  rw [← List.isPrefixOf_iff_prefix, h.1]
  exact Bool.false_ne_true

theorem exists_emit_level (e : Layout) (kind : LineKind) (line : Line) :
    ∃ level, (e.emit kind line).2 = normalize level line ∧
      (kind = .openBrace → level = e.level) ∧ (kind = .closeBrace → level = e.depth - 1) := by
  obtain ⟨level, hlevel⟩ := exists_emit_eq e kind line
  cases kind with
  | openBrace => exact ⟨_, rfl, fun _ => rfl, by simp⟩
  | closeBrace => exact ⟨_, rfl, by simp, fun _ => rfl⟩
  | _ => exact ⟨level, hlevel, by simp, by simp⟩

/-- A line that keeps what was read off it, and is no indented brace, is given out as a line of the
same kind. -/
theorem classify_emit {line : Line} (h : s.keeps line = true) (e : Layout)
    (hopen : (classify s.inComment line).1 = .openBrace → e.level = 0)
    (hclose : (classify s.inComment line).1 = .closeBrace → e.depth ≤ 1) :
    classify s.inComment (e.emit (classify s.inComment line).1 line).2 =
      classify s.inComment line := by
  obtain ⟨level, hout, hopen', hclose'⟩ := exists_emit_level e (classify s.inComment line).1 line
  rw [hout]
  refine classify_normalize_of_kind (fun hkind => ?_) (fun hkind => ?_) (not_case_tab_of_keeps h)
  · rw [hopen' hkind, hopen hkind]
  · have := hclose hkind
    rw [hclose' hkind]
    omega

/-- How the second pass reads what it was given for a brace. -/
theorem exists_repeats_brace (hs : s.inDeclarations = false) {line : Line}
    (hkeeps : s.keeps line = true) (hcomment : s.inComment = false) {depth : Nat}
    (hle : depth ≤ s.depth) (hone : depth ≤ 1) {kind : LineKind}
    (hkind : classify s.inComment line = (kind, s.inComment))
    (hbrace : kind = .openBrace ∨ kind = .closeBrace) :
    ∃ kind', classify s.inComment (s.emit kind line).2 = (kind', s.inComment) ∧
      Repeats (emit { s with depth } kind' (s.emit kind line).2) (s.emit kind line) := by
  have hsame := classify_emit hkeeps s
  rw [keeps] at hkeeps
  rw [hkind] at hsame hkeeps
  rw [hcomment] at hkind
  rcases hbrace with rfl | rfl
  · have hline : trimEnd line = ['{'] := by
      rw [← classify_eq_openBrace_iff, hkind]
    by_cases hlevel : s.level = 0
    · exact ⟨_, hsame (fun _ => hlevel) (by simp), repeats_openBrace hle hone hs hlevel hcomment⟩
    · have hhead : (trim line).head? = some '{' := by
        rw [((trimEnd_eq_singleton_iff (by decide) line).1 hline).2]
        rfl
      have hbody : ¬(s.depth = 0 ∧ s.afterParenthesis = true) := by
        simpa [hlevel, hs, imp_iff_not_or] using hkeeps
      obtain ⟨hasParenthesis, hcode⟩ := exists_classify_normalize_brace (.inl rfl) hhead hlevel
      rw [← hcomment] at hcode
      exact ⟨_, hcode, repeats_openBrace_code hle hone hs hline hbody hasParenthesis⟩
  · have hline : line.head? = some '}' := by
      rw [← classify_eq_closeBrace_iff, hkind]
    by_cases hdepth : s.depth ≤ 1
    · exact ⟨_, hsame (by simp) (fun _ => hdepth), repeats_closeBrace hle hone⟩
    · have hhead : (trim line).head? = some '}' := head?_trim_of_head? (by decide) hline
      have hlevel : s.depth - 1 ≠ 0 := by omega
      obtain ⟨hasParenthesis, hcode⟩ := exists_classify_normalize_brace (.inr rfl) hhead hlevel
      rw [← hcomment] at hcode
      exact ⟨_, hcode, repeats_closeBrace_code hle hone hs hline (by omega) hasParenthesis⟩

/-- How the second pass reads what it was given for a line. -/
theorem exists_repeats (hs : s.inDeclarations = false) {line : Line} (hkeeps : s.keeps line = true)
    {depth : Nat} (hle : depth ≤ s.depth) (hone : depth ≤ 1) {kind : LineKind} {inComment : Bool}
    (hkind : classify s.inComment line = (kind, inComment)) :
    let e := { s with inComment }
    ∃ kind', classify s.inComment (e.emit kind line).2 = (kind', inComment) ∧
      Repeats (emit { e with depth } kind' (e.emit kind line).2) (e.emit kind line) := by
  intro e
  have hlevel : level { e with depth } ≤ e.level := level_le_level hle
  have hfollows : Follows { e with depth } e := follows_of_phase (ne_declarations hs) hle hone _ _
  have hsame := classify_emit hkeeps e
  have hlabel := hkeeps
  rw [keeps, hkind] at hlabel
  rw [hkind] at hsame
  -- A line that belongs to no comment is read with none open and leaves none open.
  have hcomments : kind ≠ .comment → s.inComment = false ∧ inComment = s.inComment := by
    intro hne
    have hfalse : s.inComment = false ∧ (classify s.inComment line).2 = false :=
      of_classify_ne_comment (by rwa [hkind])
    rw [hkind] at hfalse
    exact ⟨hfalse.1, hfalse.2.trans hfalse.1.symm⟩
  cases kind with
  | blank => exact ⟨_, hsame (by simp) (by simp), place_place hlevel .blank line, hfollows⟩
  | comment => exact ⟨_, hsame (by simp) (by simp), place_place hlevel .comment line, hfollows⟩
  | preprocessor =>
    exact ⟨_, hsame (by simp) (by simp), place_place hlevel .preprocessor line, hfollows⟩
  | openBrace =>
    obtain ⟨hfalse, rfl⟩ := hcomments (by simp)
    exact exists_repeats_brace hs hkeeps hfalse hle hone hkind (.inl rfl)
  | closeBrace =>
    obtain ⟨hfalse, rfl⟩ := hcomments (by simp)
    exact exists_repeats_brace hs hkeeps hfalse hle hone hkind (.inr rfl)
  | caseLabel =>
    obtain ⟨hfalse, -⟩ := hcomments (by simp)
    have hne : trim line ≠ [] := by
      rw [Ne, ← classify_eq_blank_iff, ← hfalse, hkind]
      simp
    exact ⟨_, hsame (by simp) (by simp),
      repeats_caseLabel (s := e) hle hone (of_decide_eq_true hlabel) hne⟩
  | breakStatement =>
    exact ⟨_, hsame (by simp) (by simp), repeats_breakStatement (s := e) hle hone hs⟩
  | code hasParenthesis =>
    exact ⟨_, hsame (by simp) (by simp), repeats_code (s := e) hle hone hs hasParenthesis⟩

/-- The second pass repeats a step of the first. -/
theorem Follows.step (h : t.Follows s) (hs : s.inDeclarations = false) {line : Line}
    (hkeeps : s.keeps line = true) :
    ∃ out, (s.step line).2 = [out] ∧ (t.step out).2 = [out] ∧
      (t.step out).1.Follows (s.step line).1 := by
  obtain ⟨heq, hle, hone, -⟩ := h
  generalize t.depth = depth at *
  subst heq
  obtain ⟨⟨kind, inComment⟩, hkind⟩ : ∃ kind, classify s.inComment line = kind := ⟨_, rfl⟩
  obtain ⟨kind', hkind', hout, hfollows⟩ := exists_repeats hs hkeeps hle hone hkind
  rw [step_of_not_inDeclarations hs hkind]
  refine ⟨_, rfl, ?_⟩
  rw [step_of_not_inDeclarations (s := { s with depth }) hs hkind']
  exact ⟨congrArg ([·]) hout, hfollows⟩

end Layout

end Stencil.Source
