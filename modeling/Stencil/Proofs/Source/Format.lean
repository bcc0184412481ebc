import Stencil.Proofs.Source.IncludeBlock
import Stencil.Proofs.Source.Layout
import Stencil.Source.Format

/-!
# Formatting rearranges lines

Formatting is layout and then the sorting of include blocks. Each is a bijection of places: layout
moves lines within runs (`Layout.Laid.exists_laidBy`), sorting moves include lines within their
blocks (`exists_equiv_sortIncludes`). No line of a run becomes an include line, so a line is moved
by one of the two at most, and their composition says where every line goes
(`exists_rearranges_formatLines`).
-/

namespace Stencil.Source

open Text

/-- `σ` tells where each line of a source text stands in the text `out`, and moves none out of its
run or include block. -/
structure Rearranges (lines out : List Line) (σ : Fin lines.length ≃ Fin out.length) : Prop where
  /-- A line changes in its blanks at most. -/
  ink_eq : ∀ i, ink out[σ i] = ink lines[i]
  /-- A line moves within the run of declarations that it is held back in, or within its block of
  include lines. -/
  moves : ∀ i, (σ i).val = i ∨ SameRun (Layout.runFlags {} lines) i (σ i) ∨
    SameRun (out.map isInclude) i (σ i)
  /-- In a run the declarations come first. -/
  declarations_first : ∀ i j : Fin lines.length, SameRun (Layout.runFlags {} lines) i j →
    isDeclaration lines[i] = true → isDeclaration lines[j] = false → σ i < σ j
  /-- In a run the other lines keep their order. -/
  others_in_order : ∀ i j : Fin lines.length, SameRun (Layout.runFlags {} lines) i j →
    isDeclaration lines[i] = false → isDeclaration lines[j] = false → i < j → σ i < σ j
  /-- Lines that are neither declarations nor include lines keep their order throughout. -/
  rest_in_order : ∀ i j : Fin lines.length, isDeclaration lines[i] = false →
    isInclude lines[i] = false → isDeclaration lines[j] = false → isInclude lines[j] = false →
    i < j → σ i < σ j

/-! ## Layout -/

namespace Layout

/-- Layout of the whole text `lines` puts its lines at the places that `σ` tells. -/
structure LaidBy (flags : List Bool) (lines out : List Line)
    (σ : Fin lines.length ≃ Fin out.length) : Prop where
  shows : ∀ i, Shows flags (lines[i], i.val) out[σ i]
  moves : ∀ i, (σ i).val = i ∨ SameRun flags i (σ i)
  before : ∀ i j, σ i < σ j → Before flags (lines[i], i.val) (lines[j], j.val)

variable {flags : List Bool} {lines out : List Line}

theorem Laid.exists_laidBy {zs : List (Line × Nat)} (h : Laid flags 0 lines zs out) :
    ∃ σ : Fin lines.length ≃ Fin out.length, LaidBy flags lines out σ := by
  obtain ⟨σ, hσ, hshows, hmoves⟩ := h.placed.exists_equiv h.shown
  refine ⟨σ, hshows, hmoves, fun i j hij => ?_⟩
  obtain ⟨hi, hgeti⟩ := List.getElem?_eq_some_iff.1 (hσ i)
  obtain ⟨hj, hgetj⟩ := List.getElem?_eq_some_iff.1 (hσ j)
  have hbefore := List.pairwise_iff_getElem.1 h.ordered (σ i) (σ j) hi hj hij
  rwa [hgeti, hgetj] at hbefore

theorem lt_of_not_lt {σ : Fin lines.length ≃ Fin out.length} {i j : Fin lines.length}
    (hne : i ≠ j) (hij : ¬σ i < σ j) : σ j < σ i :=
  lt_of_le_of_ne (not_lt.1 hij) fun heq => hne (σ.injective heq).symm

namespace LaidBy

variable {σ : Fin lines.length ≃ Fin out.length} (h : LaidBy flags lines out σ)
  {i j : Fin lines.length}

include h

theorem isInclude_of_run (hi : flags[i.val]? = some true) : isInclude out[σ i] = false := by
  rw [Bool.eq_false_iff]
  exact fun hout => ((h.shows i).isInclude hout).2 hi

theorem isInclude_of_not_isInclude (hi : isInclude lines[i] = false) :
    isInclude out[σ i] = false := by
  rw [Bool.eq_false_iff] at hi ⊢
  exact fun hout => hi ((h.shows i).isInclude hout).1

theorem val_eq_of_not_inRun (hi : flags[i.val]? ≠ some true) :
    (σ i).val = i :=
  (h.moves i).resolve_right fun hsame => hi hsame.left

/-- A line that is given out as an include line is given out at its place. -/
theorem val_eq_of_isInclude (hi : isInclude out[σ i] = true) : (σ i).val = i :=
  h.val_eq_of_not_inRun ((h.shows i).isInclude hi).2

/-- No include line is given out at a place in a run. -/
theorem not_isInclude_of_flag {k : Fin out.length} (hk : flags[k.val]? = some true) :
    isInclude out[k] = false := by
  obtain ⟨i, rfl⟩ := σ.surjective k
  refine h.isInclude_of_run ?_
  by_contra hi
  rw [h.val_eq_of_not_inRun hi] at hk
  exact hi hk

/-- Layout keeps the order of two lines if they are in no run together, or if they are and the first
may precede the second. -/
theorem lt_iff (hij : i < j) :
    σ i < σ j ↔ (SameRun flags i j → mayPrecede lines[i] lines[j] = true) := by
  constructor
  · intro hlt hsame
    exact ((h.before i j hlt).order hsame).1
  · intro hmay
    by_contra hnot
    have hback := h.before j i (lt_of_not_lt (Fin.ne_of_lt hij) hnot)
    have hji : j < i := by
      by_cases hsame : SameRun flags j i
      · exact (hback.order hsame).2 (hmay hsame.symm)
      · exact hback.lt hsame
    exact lt_asymm hij hji

/-- A line that is no declaration comes after every line that it came after. -/
theorem lt_of_not_isDeclaration (hj : isDeclaration lines[j] = false) (hij : i < j) :
    σ i < σ j :=
  (h.lt_iff hij).2 fun _ => mayPrecede_of_not_isDeclaration _ hj

/-- In a run a line that is no declaration comes after every declaration. -/
theorem lt_of_isDeclaration (hsame : SameRun flags i j) (hi : isDeclaration lines[i] = true)
    (hj : isDeclaration lines[j] = false) : σ i < σ j := by
  rcases lt_trichotomy i j with hij | rfl | hji
  · exact h.lt_of_not_isDeclaration hj hij
  · rw [hi] at hj
    cases hj
  · refine lt_of_not_lt (Fin.ne_of_lt hji) fun hlt => ?_
    have hmay := (h.lt_iff hji).1 hlt hsame.symm
    rw [mayPrecede_of_isDeclaration hj hi] at hmay
    cases hmay

end LaidBy

end Layout

/-! ## The whole -/

/-- Formatting rearranges the lines of a text: no line is lost, doubled or merged with another, and
none leaves its run of declarations or its block of includes. -/
theorem exists_rearranges_formatLines (lines : List Line) :
    ∃ σ : Fin lines.length ≃ Fin (formatLines lines).length,
      Rearranges lines (formatLines lines) σ := by
  unfold formatLines
  obtain ⟨zs, hlaid⟩ := Layout.exists_laid lines
  obtain ⟨σ, hσ⟩ := hlaid.exists_laidBy
  obtain ⟨τ, hget, hmoves, hflags⟩ := exists_equiv_sortIncludes (Layout.run {} lines)
  -- Of the two bijections the second moves include lines only, and the first none of these.
  have hstay : ∀ i, isInclude (Layout.run {} lines)[σ i] = false → (τ (σ i)).val = σ i := by
    intro i hi
    rcases hmoves (σ i) with h | h
    · exact h
    · exact (Bool.false_ne_true (hi.symm.trans (isInclude_of_sameRun h))).elim
  have hlt : ∀ i j, isInclude (Layout.run {} lines)[σ i] = false →
      isInclude (Layout.run {} lines)[σ j] = false → σ i < σ j → (σ.trans τ) i < (σ.trans τ) j := by
    intro i j hi hj hij
    rwa [Equiv.trans_apply, Equiv.trans_apply, Fin.lt_def, hstay i hi, hstay j hj]
  refine ⟨σ.trans τ, fun i => ?_, fun i => ?_, fun i j hsame hi hj => ?_,
    fun i j hsame _ hj hij => ?_, fun i j _ hi hj hj' hij => ?_⟩
  · have hline : (sortIncludes (Layout.run {} lines))[(σ.trans τ) i] = (Layout.run {} lines)[σ i] :=
      hget (σ i)
    rw [hline]
    exact (hσ.shows i).ink_eq
  · rcases hmoves (σ i) with h | h
    · rw [Equiv.trans_apply, h]
      exact (hσ.moves i).imp_right .inl
    · -- An include line of the output is in no run, so layout left it at its place.
      have hi : (σ i).val = i := hσ.val_eq_of_isInclude (isInclude_of_sameRun h)
      rw [Equiv.trans_apply, hflags, ← hi]
      exact .inr (.inr h)
  · exact hlt i j (hσ.isInclude_of_run hsame.left) (hσ.isInclude_of_run hsame.right)
      (hσ.lt_of_isDeclaration hsame hi hj)
  · exact hlt i j (hσ.isInclude_of_run hsame.left) (hσ.isInclude_of_run hsame.right)
      (hσ.lt_of_not_isDeclaration hj hij)
  · exact hlt i j (hσ.isInclude_of_not_isInclude hi) (hσ.isInclude_of_not_isInclude hj')
      (hσ.lt_of_not_isDeclaration hj hij)

end Stencil.Source
