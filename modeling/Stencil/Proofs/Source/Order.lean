import Stencil.Proofs.Source.Format

/-!
# The order of formatted lines

Formatting sends every line of a text to a place and writes it there (`FormatsBy`). A line stays
behind every line that it stood behind, but for two cases: include lines are sorted in their blocks,
and in a run a line goes before those that may not precede it in declaration order
(`FormatsBy.lt_iff`). Which lines formatting moves across others is read off this.
-/

namespace Stencil.Source

open Text

/-- A line of the text is held back in a run. -/
abbrev InRun (lines : List Line) (i : Nat) : Prop :=
  (Layout.runFlags {} lines)[i]? = some true

/-- Two lines of the text are held back in one run. -/
abbrev Together (lines : List Line) (i j : Nat) : Prop :=
  SameRun (Layout.runFlags {} lines) i j

/-- `σ` tells where each line of a text stands in the formatted text `out`. -/
structure FormatsBy (lines out : List Line) (σ : Fin lines.length ≃ Fin out.length) : Prop where
  written : ∀ i : Fin lines.length, Written (InRun lines i) (lines.get i) (out.get (σ i))
  together : ∀ i : Fin lines.length, Together lines i (σ i) ∨ ¬InRun lines i ∧ ¬InRun lines (σ i)
  lt_iff : ∀ i j : Fin lines.length, i < j →
    isInclude (lines.get i) = false ∨ isInclude (lines.get j) = false →
    (σ i < σ j ↔ (Together lines i j → mayPrecede (lines.get i) (lines.get j) = true))

/-! ## Blocks of includes -/

section includes

variable {lines out : List Line} {τ : Fin lines.length ≃ Fin out.length}
  (hmoves : ∀ i, (τ i).val = i ∨ SameRun (lines.map isInclude) i (τ i))

include hmoves

theorem val_eq_of_not_isInclude {i : Fin lines.length} (hi : isInclude (lines.get i) = false) :
    (τ i).val = i := by
  rcases hmoves i with hplace | hsame
  · exact hplace
  · exact (Bool.false_ne_true (hi.symm.trans (isInclude_of_sameRun hsame))).elim

/-- Sorting include lines moves none of them across another line. -/
theorem lt_of_not_isInclude {i j : Fin lines.length} (hij : i < j)
    (h : isInclude (lines.get i) = false ∨ isInclude (lines.get j) = false) : τ i < τ j := by
  by_contra hnot
  rw [Fin.lt_def, Nat.not_lt] at hnot
  have hij' : i.val < j.val := hij
  rcases h with hi | hj
  · have hplace := val_eq_of_not_isInclude hmoves hi
    have hsame := (hmoves j).resolve_left (by omega)
    have hflag := hsame.symm.between (k := i.val) (by omega) (by omega)
    exact Bool.false_ne_true (hi.symm.trans (isInclude_of_flag hflag))
  · have hplace := val_eq_of_not_isInclude hmoves hj
    have hsame := (hmoves i).resolve_left (by omega)
    have hflag := hsame.between (k := j.val) (by omega) (by omega)
    exact Bool.false_ne_true (hj.symm.trans (isInclude_of_flag hflag))

theorem lt_iff_of_not_isInclude {i j : Fin lines.length}
    (h : isInclude (lines.get i) = false ∨ isInclude (lines.get j) = false) :
    τ i < τ j ↔ i < j := by
  constructor
  · intro hlt
    by_contra hnot
    rcases lt_or_eq_of_le (not_lt.1 hnot) with hji | rfl
    · exact lt_asymm hlt (lt_of_not_isInclude hmoves hji h.symm)
    · exact lt_irrefl _ hlt
  · exact fun hij => lt_of_not_isInclude hmoves hij h

end includes

/-! ## The whole -/

/-- The bijections of layout and of sorting include lines, one after the other. -/
theorem formatsBy_of_laidBy {lines out : List Line} {σ : Fin lines.length ≃ Fin out.length}
    {τ : Fin out.length ≃ Fin (sortIncludes out).length}
    (hσ : Layout.LaidBy (Layout.runFlags {} lines) lines out σ)
    (hget : ∀ k, (sortIncludes out).get (τ k) = out.get k)
    (hmoves : ∀ k, (τ k).val = k ∨ SameRun (out.map isInclude) k (τ k)) :
    FormatsBy lines (sortIncludes out) (σ.trans τ) := by
  refine ⟨fun i => ?_, fun i => ?_, fun i j hij hinclude => ?_⟩
  · have hline : (sortIncludes out).get (τ (σ i)) = out.get (σ i) := hget (σ i)
    rw [Equiv.trans_apply, hline]
    exact (hσ.shows i).written
  · rw [Equiv.trans_apply]
    by_cases hrun : InRun lines i
    · have hplace : (τ (σ i)).val = (σ i).val :=
        val_eq_of_not_isInclude hmoves (hσ.isInclude_of_run hrun)
      left
      rw [hplace]
      rcases hσ.moves i with hplace | hsame
      · intro k hleft hright
        rwa [show k = i by omega]
      · exact hsame
    · refine .inr ⟨hrun, fun hrun' => ?_⟩
      rcases hmoves (σ i) with hplace | hsame
      · rw [hplace, hσ.val_eq_of_not_inRun hrun] at hrun'
        exact hrun hrun'
      · have hplace : (τ (σ i)).val < out.length := by
          have hlt := (List.getElem?_eq_some_iff.1 hsame.right).1
          rwa [List.length_map] at hlt
        have hinclude := isInclude_of_flag (i := ⟨_, hplace⟩) hsame.right
        have hrunline := hσ.not_isInclude_of_flag (k := ⟨_, hplace⟩) hrun'
        exact Bool.false_ne_true (hrunline.symm.trans hinclude)
  · refine (lt_iff_of_not_isInclude hmoves ?_).trans (hσ.lt_iff hij)
    exact hinclude.imp hσ.isInclude_of_not_isInclude hσ.isInclude_of_not_isInclude

theorem exists_formatsBy (lines : List Line) :
    ∃ σ : Fin lines.length ≃ Fin (formatLines lines).length,
      FormatsBy lines (formatLines lines) σ := by
  obtain ⟨zs, hlaid⟩ := Layout.exists_laid lines
  obtain ⟨σ, hσ⟩ := hlaid.exists_laidBy
  obtain ⟨τ, hget, hmoves, -⟩ := exists_equiv_sortIncludes (Layout.run {} lines)
  exact ⟨σ.trans τ, formatsBy_of_laidBy hσ hget hmoves⟩

namespace FormatsBy

variable {lines out : List Line} {σ : Fin lines.length ≃ Fin out.length}

theorem together_iff (h : FormatsBy lines out σ) (k : Nat) (i : Fin lines.length) :
    Together lines k (σ i) ↔ Together lines k i := by
  rcases h.together i with hsame | ⟨hi, hi'⟩
  · exact ⟨fun hk => hk.trans hsame.symm, fun hk => hk.trans hsame⟩
  · exact iff_of_false (fun hk => hi' hk.right) fun hk => hi hk.right

/-- A line that is neither a declaration nor an include line stays behind all that it stood
behind. -/
theorem lt_of_not_isDeclaration (h : FormatsBy lines out σ) {i j : Fin lines.length} (hij : i < j)
    (hdeclaration : isDeclaration (lines.get j) = false)
    (hinclude : isInclude (lines.get j) = false) : σ i < σ j :=
  (h.lt_iff i j hij (.inr hinclude)).2 fun _ => mayPrecede_of_not_isDeclaration _ hdeclaration

end FormatsBy

end Stencil.Source
