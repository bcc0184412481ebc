import Stencil.Proofs.Source.Format
import Stencil.Proofs.Source.Steady

/-!
# What layout remembers before a line, and where it gives the line out

A line that layout does not hold back is given out behind all lines before it, so at the place that
it has in the text (`getElem?_run`), normalized to a level that is read off what is remembered
before it (`Layout.lineLevel`). Inside braces such a line keeps its place when blocks of includes
are sorted as well (`getElem?_formatLines`), and the tabs at its start are those of its margin or
those of its level, whichever are more (`leadingTabs_normalize`).
-/

namespace Stencil.Source

open Text

namespace Layout

/-- What is remembered after the lines. -/
def after (s : Layout) (lines : List Line) : Layout :=
  lines.foldl (fun s line => (s.step line).1) s

/-- What is remembered when a line is given out, behind the lines that were held back. -/
def giving (s : Layout) (line : Line) : Layout :=
  { s with
    inComment := (classify s.inComment line).2
    phase := match s.phase with
      | .declarations _ => .plain
      | phase => phase }

/-- The level that a line is given out at. -/
def lineLevel (s : Layout) (kind : LineKind) (line : Line) : Nat :=
  match kind with
  | .preprocessor => 0
  | .closeBrace => s.depth - 1
  | .caseLabel => s.depth
  | .code _ => level { s with phase := phaseAfterCode line s.phase }
  | _ => s.level

theorem emit_eq_normalize (s : Layout) (kind : LineKind) (line : Line) :
    (s.emit kind line).2 = normalize (s.lineLevel kind line) line := by
  cases kind with
  | code hasParenthesis => rw [emit_code]; rfl
  | _ => rfl

/-- A line that is not held back is given out behind those that were. -/
theorem step_of_gives {s : Layout} {line : Line}
    (h : s.inDeclarations = true → endsDeclarations (classify s.inComment line).1 = true) :
    s.step line = (((s.giving line).emit (classify s.inComment line).1 line).1,
      s.pending ++ [((s.giving line).emit (classify s.inComment line).1 line).2]) := by
  cases hphase : s.phase with
  | declarations held =>
    have hends := h (by simp [inDeclarations, hphase])
    simp [step, giving, hphase, hends, pending]
  | plain => simp [step, giving, hphase, pending]
  | caseBody level => simp [step, giving, hphase, pending]

/-! ## Lines given out and lines held back -/

theorem length_arrange (run : List Line) : (arrange run).length = run.length := by
  obtain ⟨offset, halign⟩ := exists_align_eq_alignTo (sortDeclarations run)
  rw [arrange, halign, alignTo, List.length_map, sortDeclarations, length_stableSort]

theorem length_settle (depth : Nat) (run : List Line) (held : List (LineKind × Line)) :
    (settle depth run held).length = run.length + held.length := by
  induction held generalizing run with
  | nil => exact length_arrange run
  | cons entry held ih =>
    obtain ⟨kind, line⟩ := entry
    cases hjoins : joinsRun kind with
    | true =>
      rw [settle_of_joinsRun hjoins, ih, List.length_append, List.length_singleton,
        List.length_cons]
      omega
    | false =>
      rw [settle_of_not_joinsRun hjoins, List.length_append, length_arrange, List.length_cons, ih,
        List.length_nil, List.length_cons]
      omega

theorem length_pending (s : Layout) : s.pending.length = s.heldLines.length := by
  rw [pending_eq, length_settle, List.length_nil, Nat.zero_add]

/-- What is given out for the lines that come first does not depend on those that follow. -/
theorem exists_run_append (s : Layout) (front : List Line) :
    ∃ out, (∀ rest, s.run (front ++ rest) = out ++ (s.after front).run rest) ∧
      out.length + (s.after front).heldLines.length = s.heldLines.length + front.length := by
  induction front generalizing s with
  | nil => exact ⟨[], fun rest => rfl, by simp [after]⟩
  | cons line front ih =>
    obtain ⟨out, hout, hlength⟩ := ih (s.step line).1
    refine ⟨(s.step line).2 ++ out, fun rest => ?_, ?_⟩
    · rw [List.cons_append, run, hout, List.append_assoc]
      rfl
    · rw [List.length_append, List.length_cons]
      change _ + (after (s.step line).1 front).heldLines.length = _
      rcases step_cases s line with ⟨-, hheld, hgiven⟩ | ⟨-, hheld, level, hgiven⟩
      · rw [hheld, List.length_append, List.length_singleton] at hlength
        rw [hgiven, List.length_nil]
        omega
      · rw [hheld, List.length_nil] at hlength
        rw [hgiven, List.length_append, List.length_singleton, length_pending]
        omega

end Layout

/-! ## Places -/

/-- What is remembered before the line at a place. -/
def stateBefore (lines : List Line) (k : Nat) : Layout :=
  Layout.after {} (lines.take k)

/-- What the line at a place is. -/
def kindAt (lines : List Line) (i : Fin lines.length) : LineKind :=
  (classify (stateBefore lines i).inComment (lines.get i)).1

/-- Between the two places there are open braces throughout. -/
def Inside (lines : List Line) (i j : Nat) : Prop :=
  ∀ k, i ≤ k → k ≤ j → 0 < (stateBefore lines k).depth

instance {lines : List Line} {i j : Nat} : Decidable (Inside lines i j) :=
  inferInstanceAs (Decidable (∀ k, i ≤ k → k ≤ j → _))

/-- An opening brace in the first column, outside of other braces and behind a closing
parenthesis. -/
def OpensFunction (lines : List Line) (b : Fin lines.length) : Prop :=
  kindAt lines b = .openBrace ∧ (stateBefore lines b).depth = 0 ∧
    (stateBefore lines b).afterParenthesis = true

instance {lines : List Line} {b : Fin lines.length} : Decidable (OpensFunction lines b) :=
  inferInstanceAs (Decidable (_ ∧ _ ∧ _))

/-- The line stands behind a brace that opens a function, and before the one that closes it. -/
def InFunction (lines : List Line) (i : Fin lines.length) : Prop :=
  ∃ b < i, OpensFunction lines b ∧ Inside lines (b.val + 1) i

instance {lines : List Line} {i : Fin lines.length} : Decidable (InFunction lines i) :=
  inferInstanceAs (Decidable (∃ b, b < i ∧ _))

section places

variable {lines : List Line} {i : Fin lines.length}

theorem stateBefore_succ (i : Fin lines.length) :
    stateBefore lines (i + 1) = ((stateBefore lines i).step (lines.get i)).1 := by
  rw [stateBefore, List.take_add_one, List.getElem?_eq_getElem i.isLt, Layout.after,
    List.foldl_append]
  rfl

theorem kindAt_eq_classify (h : kindAt lines i ≠ .comment) :
    kindAt lines i = (classify false (lines.get i)).1 := by
  unfold kindAt at h ⊢
  rw [(of_classify_ne_comment h).1]

/-- What is given out, cut at the place of a line. -/
theorem exists_run_eq (i : Fin lines.length) :
    ∃ out : List Line, (out ++ (stateBefore lines i).pending).length = i ∧
      Layout.run {} lines =
        out ++ (stateBefore lines i).run (lines.get i :: lines.drop (i + 1)) := by
  obtain ⟨out, hout, hlength⟩ := Layout.exists_run_append {} (lines.take i)
  refine ⟨out, ?_, ?_⟩
  · rw [List.length_take_of_le i.isLt.le] at hlength
    rw [List.length_append, Layout.length_pending]
    exact hlength.trans (Nat.zero_add _)
  · have hrun := hout (lines.drop i)
    rwa [List.take_append_drop, List.drop_eq_getElem_cons i.isLt] at hrun

/-- A line that is not held back is given out at its place. -/
theorem getElem?_run
    (h : (stateBefore lines i).inDeclarations = true →
      Layout.endsDeclarations (kindAt lines i) = true) :
    (Layout.run {} lines)[i.val]? = some (normalize
      (((stateBefore lines i).giving (lines.get i)).lineLevel (kindAt lines i) (lines.get i))
      (lines.get i)) := by
  obtain ⟨out, hplace, hrun⟩ := exists_run_eq i
  rw [hrun, Layout.run, Layout.step_of_gives h, ← List.append_assoc, ← List.append_assoc,
    List.append_assoc, List.getElem?_append_right hplace.le, hplace, Nat.sub_self,
    ← Layout.emit_eq_normalize]
  rfl

/-- A line that is not held back keeps its place among the formatted lines if it is indented or
starts with a closing brace. -/
theorem getElem?_formatLines
    (h : (stateBefore lines i).inDeclarations = true →
      Layout.endsDeclarations (kindAt lines i) = true)
    (hnot : 0 < ((stateBefore lines i).giving (lines.get i)).lineLevel (kindAt lines i)
      (lines.get i) ∨ (lines.get i).head? = some '}') :
    (formatLines lines)[i.val]? = some (normalize
      (((stateBefore lines i).giving (lines.get i)).lineLevel (kindAt lines i) (lines.get i))
      (lines.get i)) := by
  refine getElem?_sortIncludes (getElem?_run h) ?_
  rw [← Bool.not_eq_true, isInclude_normalize_iff]
  rintro ⟨hlevel, hinclude⟩
  rcases hnot with hpos | hbrace
  · exact hpos.ne' hlevel
  · rw [head?_of_isInclude hinclude] at hbrace
    cases hbrace

end places

/-! ## Tabs at the start of a line -/

/-- The number of tabs at the start of a line. -/
def leadingTabs (line : Line) : Nat :=
  (line.takeWhile (· = '\t')).length

theorem leadingTabs_normalize {line : Line} (h : content line ≠ []) (level : Nat) :
    leadingTabs (normalize level line) = max (width (margin line) / tabWidth) level := by
  obtain ⟨spaces, hindent⟩ := exists_indentation_eq (width (margin line)) level
  obtain ⟨c, cs, hcontent⟩ := List.exists_cons_of_ne_nil h
  have hc := not_isMargin_of_content hcontent
  have hrest : (List.replicate spaces ' ' ++ c :: expandTabs 0 cs).takeWhile (· = '\t') = [] := by
    cases spaces with
    | zero =>
      rw [isMargin, Bool.or_eq_false_iff] at hc
      exact List.takeWhile_cons_of_neg (by simp [hc.2])
    | succ spaces => rfl
  rw [normalize_of_content_ne_nil h, hindent, hcontent, expandTabs_cons hc, leadingTabs,
    List.append_assoc, List.replicate_zero, List.nil_append,
    List.takeWhile_append_of_pos (by simp), hrest, List.append_nil, List.length_replicate]

end Stencil.Source
