import Stencil.Proofs.Source.Order

/-!
# Lines that cross braces

A brace in the first column ends the declarations of a function body, so no line crosses it. An
indented brace is held back as code is, and the declarations that stand behind it in its run go in
front of it, out of the block that they were written in; no other line crosses it
(`exists_crosses_brace_iff`).
-/

namespace Stencil.Source

open Text

/-- An opening brace alone, or a line that starts with a closing one, however it is indented. -/
def isBrace (line : Line) : Bool :=
  trim line = ['{'] || (trim line).head? = some '}'

/-- Two lines have changed places. -/
def Crosses {n m : Nat} (σ : Fin n ≃ Fin m) (i j : Fin n) : Prop :=
  ¬(i < j ↔ σ i < σ j)

/-! ## Brace lines -/

theorem head?_of_isBrace {line : Line} (h : isBrace line = true) :
    (trim line).head? = some '{' ∨ (trim line).head? = some '}' := by
  rw [isBrace, Bool.or_eq_true, decide_eq_true_eq, decide_eq_true_eq] at h
  rcases h with hopen | hclose
  · rw [hopen]
    exact .inl rfl
  · exact .inr hclose

theorem isDeclaration_of_isBrace {line : Line} (h : isBrace line = true) :
    isDeclaration line = false := by
  rw [isDeclaration, Declaration.parse?_eq_none_of_head?]
  · rfl
  · intro c hc
    rcases head?_of_isBrace h with hhead | hhead
    · rw [hhead] at hc
      cases hc
      decide
    · rw [hhead] at hc
      cases hc
      decide

theorem isInclude_of_isBrace {line : Line} (h : isBrace line = true) : isInclude line = false := by
  refine isInclude_of_head?_trim ?_
  rcases head?_of_isBrace h with hhead | hhead
  · rw [hhead]
    decide
  · rw [hhead]
    decide

theorem exists_holdsInRun {s : Layout} {lines : List Line} {i : Nat}
    (h : (s.runFlags lines)[i]? = some true) :
    ∃ (t : Layout) (line : Line), lines[i]? = some line ∧ t.holdsInRun line = true := by
  induction lines generalizing s i with
  | nil => cases h
  | cons line lines ih =>
    cases i with
    | zero => exact ⟨s, line, rfl, Option.some.inj h⟩
    | succ i => exact ih h

/-- The kind of a line in a run. -/
theorem exists_classify_of_inRun {lines : List Line} {i : Fin lines.length}
    (h : InRun lines i) :
    ∃ inComment, Layout.endsDeclarations (classify inComment (lines.get i)).1 = false ∧
      Layout.joinsRun (classify inComment (lines.get i)).1 = true := by
  obtain ⟨t, line, hline, hholds⟩ := exists_holdsInRun h
  rw [List.getElem?_eq_getElem i.isLt] at hline
  cases hline
  refine ⟨t.inComment, ?_⟩
  unfold Layout.holdsInRun at hholds
  split at hholds
  · simpa using hholds
  · cases hholds

/-- A brace in the first column is in no run. -/
theorem not_inRun_of_isBrace {lines : List Line} {i : Fin lines.length}
    (hbrace : isBrace (lines.get i) = true) (hcolumn : StartsWithInk (lines.get i)) :
    ¬InRun lines i := by
  intro hrun
  obtain ⟨inComment, hends, hjoins⟩ := exists_classify_of_inRun hrun
  cases inComment with
  | true => cases hjoins
  | false =>
    have hstart : trim (lines.get i) = trimEnd (lines.get i) := by
      rw [trim, trimStart]
      cases hline : lines.get i with
      | nil => rfl
      | cons c rest =>
        have hc : isBlank c = false := hcolumn c (by rw [hline]; rfl)
        rw [List.dropWhile_cons_of_neg (by simp [hc])]
    rw [isBrace, Bool.or_eq_true, decide_eq_true_eq, decide_eq_true_eq, hstart] at hbrace
    rcases hbrace with hopen | hclose
    · rw [classify_of_openBrace hopen] at hends
      cases hends
    · have hhead : (lines.get i).head? = some '}' := by
        obtain ⟨rest, hrest⟩ := List.head?_eq_some_iff.1 hclose
        obtain ⟨blanks, happend, -⟩ := trimEnd_append (lines.get i)
        rw [happend, hrest]
        rfl
      rw [classify_of_closeBrace hhead] at hends
      cases hends

/-! ## Crossings -/

theorem FormatsBy.crosses_brace_iff {lines out : List Line} {σ : Fin lines.length ≃ Fin out.length}
    (h : FormatsBy lines out σ) {b : Fin lines.length} (hb : isBrace (lines.get b) = true)
    (i : Fin lines.length) :
    Crosses σ i b ↔ b < i ∧ Together lines b i ∧ isDeclaration (lines.get i) = true := by
  have hinclude := isInclude_of_isBrace hb
  have hdeclaration := isDeclaration_of_isBrace hb
  unfold Crosses
  rcases lt_trichotomy i b with hlt | rfl | hlt
  · have hbefore := h.lt_of_not_isDeclaration hlt hdeclaration hinclude
    refine iff_of_false (fun hnot => hnot (iff_of_true hlt hbefore)) ?_
    rintro ⟨hgt, -, -⟩
    exact lt_asymm hlt hgt
  · refine iff_of_false (fun hnot => hnot (iff_of_false (lt_irrefl _) (lt_irrefl _))) ?_
    rintro ⟨hgt, -, -⟩
    exact lt_irrefl _ hgt
  · have hbefore := h.lt_iff b i hlt (.inl hinclude)
    have hback : ¬(i < b ↔ σ i < σ b) ↔ ¬σ b < σ i := by
      have hne : σ i ≠ σ b := fun heq => (Fin.ne_of_lt hlt) (σ.injective heq).symm
      have hne' : (σ i).val ≠ (σ b).val := fun heq => hne (Fin.ext heq)
      rw [Fin.lt_def] at hlt
      simp only [Fin.lt_def]
      omega
    rw [hback, hbefore, Classical.not_imp]
    constructor
    · rintro ⟨hsame, hmay⟩
      refine ⟨hlt, hsame, ?_⟩
      by_contra hnot
      exact hmay (mayPrecede_of_not_isDeclaration _ (by simpa using hnot))
    · rintro ⟨-, hsame, hi⟩
      refine ⟨hsame, ?_⟩
      rw [mayPrecede_of_isDeclaration hdeclaration hi]
      exact Bool.false_ne_true

/-- Formatting moves a line across a brace exactly if it is a declaration that stands behind the
brace in one run with it. So no line crosses a brace in the first column. -/
theorem exists_crosses_brace_iff (lines : List Line) :
    ∃ σ : Fin lines.length ≃ Fin (formatLines lines).length,
      FormatsBy lines (formatLines lines) σ ∧
      ∀ b : Fin lines.length, isBrace (lines.get b) = true →
        (∀ i, Crosses σ i b ↔ b < i ∧ Together lines b i ∧ isDeclaration (lines.get i) = true) ∧
        (StartsWithInk (lines.get b) → ∀ i, ¬Crosses σ i b) := by
  obtain ⟨σ, h⟩ := exists_formatsBy lines
  refine ⟨σ, h, fun b hb => ⟨h.crosses_brace_iff hb, fun hcolumn i hcross => ?_⟩⟩
  obtain ⟨-, hsame, -⟩ := (h.crosses_brace_iff hb i).1 hcross
  exact not_inRun_of_isBrace hb hcolumn hsame.left

/-- A function whose body holds a block with a declaration. -/
def innerBlock : List Line :=
  ["f()", "\x7b", "\t\x7b", "\tint a;", "\t\x7d", "\x7d"].map String.toList

/-- The declaration of an inner block goes in front of the brace that opens the block, whichever
lines of the formatted text are taken for the lines of the text. -/
theorem declaration_leaves_block :
    formatLines innerBlock =
        ["f()", "\x7b", "\tint a;", "\t\x7b", "\t\x7d", "\x7d"].map String.toList ∧
      ∀ σ : Fin innerBlock.length ≃ Fin (formatLines innerBlock).length,
        (∀ i, ink ((formatLines innerBlock).get (σ i)) = ink (innerBlock.get i)) →
          ∃ b i, isBrace (innerBlock.get b) = true ∧ Crosses σ i b := by
  refine ⟨by decide +kernel, fun σ hσ => ?_⟩
  have hplaces : ∀ k : Fin (formatLines innerBlock).length,
      (k.val = 3 → ink ((formatLines innerBlock).get k) = ['\x7b']) ∧
        (ink ((formatLines innerBlock).get k) = "inta;".toList → k.val = 2) := by
    decide +kernel
  have hlines : ∀ i : Fin innerBlock.length,
      (i.val = 3 → ink (innerBlock.get i) = "inta;".toList) ∧
        (ink (innerBlock.get i) = ['\x7b'] → isBrace (innerBlock.get i) = true ∧ i.val < 3) := by
    decide +kernel
  have hthree : 3 < innerBlock.length := by decide
  have hdeclaration := (hplaces _).2 ((hσ ⟨3, hthree⟩).trans ((hlines _).1 rfl))
  -- Either of the two opening braces may be taken for the one behind the declaration.
  obtain ⟨brace, hbrace⟩ := σ.surjective ⟨3, by decide +kernel⟩
  have hopen := (hσ brace).symm.trans ((hplaces (σ brace)).1 (by rw [hbrace]))
  obtain ⟨hisBrace, hlt⟩ := (hlines brace).2 hopen
  refine ⟨brace, ⟨3, hthree⟩, hisBrace, fun hsame => ?_⟩
  have hback : σ ⟨3, hthree⟩ < σ brace := by
    rw [hbrace, Fin.lt_def, hdeclaration]
    decide
  have hforth := hsame.2 hback
  rw [Fin.lt_def] at hforth
  omega

end Stencil.Source
