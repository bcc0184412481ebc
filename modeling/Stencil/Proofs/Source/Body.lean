import Stencil.Proofs.Source.Alignment
import Stencil.Proofs.Source.Steady

/-!
# Declarations at the start of a function body

The lines at the start of a function body are held back until one ends the declarations, and are
then given out in arranged runs, with the comments and preprocessor lines between them
(`Layout.run_holding`). A second pass holds back the same number of lines and gives them out as they
are (`Layout.settle_settle`), as arranged runs are arranged for good.
-/

namespace Stencil.Source

open Text

namespace Layout

/-! ## Lines with their kinds -/

/-- The lines with their kinds; `inComment` tells whether a comment is open before them. -/
def kinds (inComment : Bool) : List Line → List (LineKind × Line)
  | [] => []
  | line :: lines =>
    ((classify inComment line).1, line) :: kinds (classify inComment line).2 lines

/-- Whether a comment is open after the lines. -/
def commentAfter (inComment : Bool) : List Line → Bool
  | [] => inComment
  | line :: lines => commentAfter (classify inComment line).2 lines

theorem kinds_append (inComment : Bool) (lines lines' : List Line) :
    kinds inComment (lines ++ lines') =
      kinds inComment lines ++ kinds (commentAfter inComment lines) lines' := by
  induction lines generalizing inComment with
  | nil => rfl
  | cons line lines ih => rw [List.cons_append, kinds, ih, kinds, commentAfter, List.cons_append]

theorem commentAfter_append (inComment : Bool) (lines lines' : List Line) :
    commentAfter inComment (lines ++ lines') =
      commentAfter (commentAfter inComment lines) lines' := by
  induction lines generalizing inComment with
  | nil => rfl
  | cons line lines ih => rw [List.cons_append, commentAfter, ih, commentAfter]

/-- None of the lines ends the declarations of a function body. -/
def Stays (inComment : Bool) (lines : List Line) : Prop :=
  ∀ entry ∈ kinds inComment lines, endsDeclarations entry.1 = false

/-- The first of the lines, if there is one, ends the declarations of a function body. -/
def Ends (inComment : Bool) (lines : List Line) : Prop :=
  ∀ line ∈ lines.head?, endsDeclarations (classify inComment line).1 = true

theorem stays_cons {inComment : Bool} {line : Line} {lines : List Line} :
    Stays inComment (line :: lines) ↔
      endsDeclarations (classify inComment line).1 = false ∧
        Stays (classify inComment line).2 lines := by
  simp only [Stays, kinds, List.forall_mem_cons]

theorem stays_append {inComment : Bool} {lines lines' : List Line} :
    Stays inComment (lines ++ lines') ↔
      Stays inComment lines ∧ Stays (commentAfter inComment lines) lines' := by
  simp only [Stays, kinds_append, List.forall_mem_append]

/-- The declarations at the start of the lines and what follows them. -/
theorem exists_stays_append_ends (inComment : Bool) (lines : List Line) :
    ∃ front rest, lines = front ++ rest ∧ Stays inComment front ∧
      Ends (commentAfter inComment front) rest := by
  induction lines generalizing inComment with
  | nil => exact ⟨[], [], rfl, by simp [Stays, kinds], by simp [Ends]⟩
  | cons line lines ih =>
    cases hends : endsDeclarations (classify inComment line).1 with
    | true =>
      refine ⟨[], line :: lines, rfl, by simp [Stays, kinds], ?_⟩
      simpa [Ends, commentAfter] using hends
    | false =>
      obtain ⟨front, rest, rfl, hstays, hrest⟩ := ih (classify inComment line).2
      exact ⟨line :: front, rest, rfl, stays_cons.2 ⟨hends, hstays⟩, hrest⟩

/-! ## Running through declarations -/

/-- Among the declarations of a function body, with the lines `held` held back. -/
def holding (inComment : Bool) (held : List (LineKind × Line)) : Layout :=
  { bodyStart with phase := .declarations held, inComment }

/-- After the declarations of a function body. -/
def released (inComment : Bool) : Layout :=
  { bodyStart with phase := .plain, inComment }

variable {inComment : Bool} {line : Line} {front rest : List Line}

theorem step_holding_of_stays (h : endsDeclarations (classify inComment line).1 = false)
    (held : List (LineKind × Line)) :
    (holding inComment held).step line =
      (holding (classify inComment line).2 (held ++ [((classify inComment line).1, line)]),
        []) := by
  simp [step, holding, bodyStart, h]

theorem step_holding_of_ends (h : endsDeclarations (classify inComment line).1 = true)
    (held : List (LineKind × Line)) :
    (holding inComment held).step line =
      (((released inComment).step line).1,
        settle 1 [] held ++ ((released inComment).step line).2) := by
  simp [step, holding, released, bodyStart, pending, h]

theorem run_holding_of_ends (h : Ends inComment rest) (held : List (LineKind × Line)) :
    (holding inComment held).run rest = settle 1 [] held ++ (released inComment).run rest := by
  cases rest with
  | nil => exact (List.append_nil _).symm
  | cons line rest =>
    rw [run, run, step_holding_of_ends (h line rfl), List.append_assoc]

/-- Lines that end no declarations are held back until one does. -/
theorem run_holding (hfront : Stays inComment front)
    (hrest : Ends (commentAfter inComment front) rest) (held : List (LineKind × Line)) :
    (holding inComment held).run (front ++ rest) =
      settle 1 [] (held ++ kinds inComment front) ++
        (released (commentAfter inComment front)).run rest := by
  induction front generalizing inComment held with
  | nil =>
    rw [kinds, List.append_nil]
    exact run_holding_of_ends hrest held
  | cons line front ih =>
    obtain ⟨hline, hfront⟩ := stays_cons.1 hfront
    rw [List.cons_append, run, step_holding_of_stays hline, ih hfront hrest, List.append_assoc]
    rfl

/-! ## Lines of runs -/

/-- A line of a run as it is given out. -/
structure Settled (line : Line) : Prop where
  kind : classify false line = (.blank, false) ∨ classify false line = (.code false, false)
  fixed : normalize 1 line = line
  keeps : keepsAligned line = true

theorem keepsAligned_iff (line : Line) :
    keepsAligned line = true ↔
      (∀ d, Declaration.parse? line = some d → '=' ∉ d.name) ∧
        ∀ parts, splitAssignment? line = some parts → trim parts.1 ≠ caseWord := by
  unfold keepsAligned
  rw [Bool.and_eq_true, Option.all_eq_true, Option.all_eq_true]
  simp

namespace Settled

variable {line : Line} (h : Settled line)

include h

theorem joinsRun : joinsRun (classify false line).1 = true := by
  rcases h.kind with hkind | hkind <;> rw [hkind] <;> rfl

theorem not_endsDeclarations : endsDeclarations (classify false line).1 = false := by
  rcases h.kind with hkind | hkind <;> rw [hkind] <;> rfl

theorem no_comment : (classify false line).2 = false := by
  rcases h.kind with hkind | hkind <;> rw [hkind]

theorem alignLine (offset : Nat) : Settled (alignLine offset line) := by
  obtain ⟨hnames, hcase⟩ := (keepsAligned_iff line).1 h.keeps
  rcases h.kind with hblank | hcode
  · have hnil : line = [] := by
      rw [← h.fixed, normalize_of_trim_eq_nil]
      rw [← classify_eq_blank_iff, hblank]
    rw [hnil] at h ⊢
    exact h
  · refine ⟨.inr ?_, normalize_alignLine h.fixed offset, ?_⟩
    · rw [classify_eq_code_iff] at hcode ⊢
      exact hcode.alignLine Nat.one_pos h.fixed hcase offset
    · rw [keepsAligned_iff, parse?_alignLine hnames, splitAssignment?_alignLine]
      exact ⟨hnames, hcase⟩

end Settled

theorem Settled.arrange {run : List Line} (h : ∀ line ∈ run, Settled line) :
    ∀ line ∈ arrange run, Settled line := by
  intro line hline
  obtain ⟨u, hu, rfl | ⟨offset, rfl⟩⟩ := exists_of_mem_arrange hline
  · exact h _ hu
  · exact (h _ hu).alignLine offset

theorem arrange_arrange_of_settled {run : List Line} (h : ∀ line ∈ run, Settled line) :
    Source.arrange (Source.arrange run) = Source.arrange run :=
  arrange_arrange fun line hline => ((keepsAligned_iff line).1 (h line hline).keeps).1

section settled

variable {lines : List Line} (h : ∀ line ∈ lines, Settled line)

include h

theorem commentAfter_of_settled : commentAfter false lines = false := by
  induction lines with
  | nil => rfl
  | cons line lines ih =>
    rw [List.forall_mem_cons] at h
    rw [commentAfter, h.1.no_comment, ih h.2]

theorem stays_of_settled : Stays false lines := by
  induction lines with
  | nil => simp [Stays, kinds]
  | cons line lines ih =>
    rw [List.forall_mem_cons] at h
    rw [stays_cons, h.1.no_comment]
    exact ⟨h.1.not_endsDeclarations, ih h.2⟩

theorem settle_kinds_of_settled (run : List Line) (held : List (LineKind × Line)) :
    settle 1 run (kinds false lines ++ held) = settle 1 (run ++ lines) held := by
  induction lines generalizing run with
  | nil => rw [kinds, List.nil_append, List.append_nil]
  | cons line lines ih =>
    rw [List.forall_mem_cons] at h
    rw [kinds, List.cons_append, settle_of_joinsRun h.1.joinsRun, h.1.no_comment, ih h.2,
      h.1.fixed, List.append_assoc, List.singleton_append]

end settled

/-! ## Lines given out after declarations -/

/-- The lines of code among the lines are of the same kind and the same declarations after they are
arranged. -/
def KeepsHeld (inComment : Bool) (lines : List Line) : Prop :=
  ∀ entry ∈ kinds inComment lines, ∀ hasParenthesis, entry.1 = .code hasParenthesis →
    ¬caseWord ++ ['\t'] <+: trim entry.2 ∧ keepsAligned (normalize 1 entry.2) = true

theorem keepsHeld_cons {lines : List Line} :
    KeepsHeld inComment (line :: lines) ↔
      (∀ hasParenthesis, (classify inComment line).1 = .code hasParenthesis →
        ¬caseWord ++ ['\t'] <+: trim line ∧ keepsAligned (normalize 1 line) = true) ∧
      KeepsHeld (classify inComment line).2 lines := by
  simp only [KeepsHeld, kinds, List.forall_mem_cons]

/-- No line of a run belongs to a comment. -/
theorem of_classify_joinsRun (h : joinsRun (classify inComment line).1 = true) :
    inComment = false ∧ (classify inComment line).2 = false := by
  refine of_classify_ne_comment fun hkind => ?_
  rw [hkind] at h
  cases h

theorem settled_normalize (hends : endsDeclarations (classify inComment line).1 = false)
    (hjoins : joinsRun (classify inComment line).1 = true)
    (hkeeps : ∀ hasParenthesis, (classify inComment line).1 = .code hasParenthesis →
      ¬caseWord ++ ['\t'] <+: trim line ∧ keepsAligned (normalize 1 line) = true) :
    Settled (normalize 1 line) := by
  obtain ⟨rfl, hafter⟩ := of_classify_joinsRun hjoins
  have hsame : classify false (normalize 1 line) = classify false line :=
    classify_normalize_of_kind (fun hkind => by rw [hkind] at hends; cases hends)
      (fun hkind => by rw [hkind] at hends; cases hends) fun _ hkind => (hkeeps _ hkind).1
  have hfixed : normalize 1 (normalize 1 line) = normalize 1 line := normalize_normalize 1 1 line
  cases hkind : (classify false line).1 with
  | blank =>
    refine ⟨.inl (hsame.trans (Prod.ext hkind hafter)), hfixed, ?_⟩
    rw [normalize_of_trim_eq_nil ((classify_eq_blank_iff line).1 hkind)]
    decide +kernel
  | code hasParenthesis =>
    rw [hkind] at hends
    refine ⟨.inr (hsame.trans (Prod.ext (hkind.trans ?_) hafter)), hfixed, (hkeeps _ hkind).2⟩
    exact congrArg _ hends
  | comment | preprocessor =>
    rw [hkind] at hjoins
    cases hjoins
  | openBrace | closeBrace | caseLabel | breakStatement =>
    rw [hkind] at hends
    cases hends

theorem classify_normalize_of_not_joinsRun (h : joinsRun (classify inComment line).1 = false)
    (level : Nat) : classify inComment (normalize level line) = classify inComment line :=
  classify_normalize_of_kind (fun hkind => by rw [hkind] at h; cases h)
    (fun hkind => by rw [hkind] at h; cases h) fun _ hkind => by rw [hkind] at h; cases h

/-- What a second pass holds back of an arranged run and the lines after it. -/
theorem settle_kinds_arrange {run : List Line} (hrun : ∀ line ∈ run, Settled line)
    (hcomment : inComment = true → run = []) (rest : List Line) :
    (Stays inComment (arrange run ++ rest) ↔ Stays inComment rest) ∧
      commentAfter inComment (arrange run ++ rest) = commentAfter inComment rest ∧
      settle 1 [] (kinds inComment (arrange run ++ rest)) =
        settle 1 (arrange run) (kinds inComment rest) := by
  cases inComment with
  | true =>
    rw [hcomment rfl]
    exact ⟨Iff.rfl, rfl, rfl⟩
  | false =>
    have hout := Settled.arrange hrun
    rw [stays_append, commentAfter_append, kinds_append, commentAfter_of_settled hout,
      settle_kinds_of_settled hout]
    exact ⟨and_iff_right (stays_of_settled hout), rfl, rfl⟩

/-- A second pass holds back the lines that were held back, and gives them out as they are; `run`
is the run that is open. -/
theorem settle_settle (hfront : Stays inComment front) (hkeeps : KeepsHeld inComment front)
    {run : List Line} (hrun : ∀ line ∈ run, Settled line)
    (hcomment : inComment = true → run = []) :
    let out := settle 1 run (kinds inComment front)
    Stays inComment out ∧ commentAfter inComment out = commentAfter inComment front ∧
      settle 1 [] (kinds inComment out) = out := by
  -- A line of a run makes the open run longer; a separator closes it, and the rest starts anew.
  induction front generalizing inComment run with
  | nil =>
    intro out
    obtain ⟨hstays, hafter, hsettle⟩ := settle_kinds_arrange hrun hcomment []
    rw [List.append_nil] at hstays hafter hsettle
    refine ⟨hstays.2 (by simp [Stays, kinds]), hafter, ?_⟩
    exact hsettle.trans (arrange_arrange_of_settled hrun)
  | cons line front ih =>
    intro out
    obtain ⟨hends, hfront⟩ := stays_cons.1 hfront
    obtain ⟨hline, hkeeps⟩ := keepsHeld_cons.1 hkeeps
    cases hjoins : joinsRun (classify inComment line).1 with
    | true =>
      obtain ⟨rfl, hafter⟩ := of_classify_joinsRun hjoins
      have hrun' : ∀ other ∈ run ++ [normalize 1 line], Settled other := by
        rw [List.forall_mem_append, List.forall_mem_singleton]
        exact ⟨hrun, settled_normalize hends hjoins hline⟩
      have hout : out = settle 1 (run ++ [normalize 1 line]) (kinds false front) := by
        rw [show out = settle 1 run (kinds false (line :: front)) from rfl, kinds,
          settle_of_joinsRun hjoins, hafter]
      rw [hafter] at hfront hkeeps
      rw [hout, commentAfter, hafter]
      exact ih hfront hkeeps hrun' (fun h => absurd h Bool.false_ne_true)
    | false =>
      have hlevel := settle_of_not_joinsRun hjoins 1
      generalize separatorLevel 1 (classify inComment line).1 = level at hlevel
      have hout : out = arrange run ++ normalize level line ::
          settle 1 [] (kinds (classify inComment line).2 front) := hlevel run line _
      have hnil : ∀ other ∈ ([] : List Line), Settled other := by simp
      obtain ⟨hstays', hafter', hsettle'⟩ := ih hfront hkeeps hnil fun _ => rfl
      obtain ⟨hstays, hafter, hsettle⟩ := settle_kinds_arrange hrun hcomment
        (normalize level line :: settle 1 [] (kinds (classify inComment line).2 front))
      have hsame := classify_normalize_of_not_joinsRun hjoins level
      rw [stays_cons, hsame] at hstays
      rw [commentAfter, hsame] at hafter
      rw [kinds, hsame, hlevel, hsettle', normalize_normalize, max_self,
        arrange_arrange_of_settled hrun] at hsettle
      rw [hout, commentAfter]
      exact ⟨hstays.2 ⟨hends, hstays'⟩, hafter.trans hafter', hsettle⟩

/-! ## Two passes -/

theorem keepsHeld_and_isSteady (hfront : Stays inComment front) {held : List (LineKind × Line)}
    (hsteady : (holding inComment held).isSteady (front ++ rest) = true) :
    KeepsHeld inComment front ∧ ∃ held',
      (holding (commentAfter inComment front) held').isSteady rest = true := by
  induction front generalizing inComment held with
  | nil => exact ⟨by simp [KeepsHeld, kinds], held, hsteady⟩
  | cons line front ih =>
    obtain ⟨hends, hfront⟩ := stays_cons.1 hfront
    rw [List.cons_append, isSteady, step_holding_of_stays hends, Bool.and_eq_true] at hsteady
    obtain ⟨hkeeps, hsteady⟩ := hsteady
    obtain ⟨hheld, hrest⟩ := ih hfront hsteady
    refine ⟨keepsHeld_cons.2 ⟨fun hasParenthesis hkind => ?_, hheld⟩, hrest⟩
    refine ⟨not_case_tab_of_keeps hkeeps hasParenthesis hkind, ?_⟩
    have hholds : (holding inComment held).holdsInRun line = true := by
      have hheld : (holding inComment held).holdsInRun line =
          (!endsDeclarations (classify inComment line).1 &&
            joinsRun (classify inComment line).1) := rfl
      rw [hheld, hends, hkind]
      rfl
    rw [keeps, show (holding inComment held).inComment = inComment from rfl, hkind,
      hholds] at hkeeps
    simp only [Bool.and_eq_true, Bool.not_true, Bool.false_or] at hkeeps
    exact hkeeps.2

variable {held : List (LineKind × Line)}

/-- No opening brace ends declarations, and other lines keep as much after the declarations. -/
theorem keeps_released (hkeeps : (holding inComment held).keeps line = true) :
    (released inComment).keeps line = true ∧ (classify inComment line).1 ≠ .openBrace := by
  unfold keeps at hkeeps ⊢
  simp only [holding, released, bodyStart] at hkeeps ⊢
  cases hkind : (classify inComment line).1 with
  | openBrace => simp [hkind, level, inDeclarations] at hkeeps
  | code hasParenthesis =>
    rw [hkind, Bool.and_eq_true] at hkeeps
    simp [hkeeps.1, holdsInRun]
  | caseLabel => simpa [hkind] using hkeeps
  | _ => simp

theorem isSteady_released (hrest : Ends inComment rest)
    (hsteady : (holding inComment held).isSteady rest = true) :
    (released inComment).isSteady rest = true := by
  cases rest with
  | nil => rfl
  | cons line rest =>
    rw [isSteady, Bool.and_eq_true, step_holding_of_ends (hrest line rfl)] at hsteady
    rw [isSteady, Bool.and_eq_true]
    exact ⟨(keeps_released hsteady.1).1, hsteady.2⟩

/-- A line that ends declarations does so for the second pass. -/
theorem ends_run_released (hrest : Ends inComment rest)
    (hsteady : (holding inComment held).isSteady rest = true) :
    Ends inComment ((released inComment).run rest) := by
  cases rest with
  | nil => simp [Ends, run, released, pending]
  | cons line rest =>
    rw [isSteady, Bool.and_eq_true] at hsteady
    obtain ⟨hkeeps, hopen⟩ := keeps_released hsteady.1
    obtain ⟨⟨kind, inComment'⟩, hkind⟩ : ∃ kind, classify inComment line = kind := ⟨_, rfl⟩
    have hsame := classify_emit hkeeps (released inComment') (fun h => absurd h hopen)
      fun _ => le_rfl
    rw [show (released inComment).inComment = inComment from rfl, hkind] at hsame
    have hends := hrest line rfl
    rw [hkind] at hends
    rw [run, step_of_not_inDeclarations (s := released inComment) rfl hkind]
    intro out hout
    cases hout
    rw [show emit { released inComment with inComment := inComment' } kind line =
      (released inComment').emit kind line from rfl, hsame]
    exact hends

/-- Two passes over the start of a function body, if two passes over what follows its declarations
are one. -/
theorem run_run_bodyStart {lines : List Line} (hsteady : bodyStart.isSteady lines = true)
    (hreleased : ∀ inComment (rest : List Line), rest.length ≤ lines.length →
      (released inComment).isSteady rest = true →
      (released inComment).run ((released inComment).run rest) = (released inComment).run rest) :
    bodyStart.run (bodyStart.run lines) = bodyStart.run lines := by
  obtain ⟨front, rest, rfl, hfront, hrest⟩ := exists_stays_append_ends false lines
  have hsteady' : (holding false []).isSteady (front ++ rest) = true := hsteady
  obtain ⟨hkeeps, held, hheld⟩ := keepsHeld_and_isSteady hfront hsteady'
  have hnil : ∀ line ∈ ([] : List Line), Settled line := by simp
  obtain ⟨hstays, hafter, hsettle⟩ := settle_settle hfront hkeeps hnil fun _ => rfl
  have hends := ends_run_released hrest hheld
  rw [← hafter] at hends
  have hout := run_holding hfront hrest []
  have hout' := run_holding hstays hends []
  have hagain := hreleased _ rest (by simp) (isSteady_released hrest hheld)
  rw [List.nil_append] at hout hout'
  rw [show bodyStart = holding false [] from rfl, hout, ← hafter, hout', hsettle, hafter, hagain]

end Layout

end Stencil.Source
