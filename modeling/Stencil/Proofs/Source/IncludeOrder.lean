import Stencil.Proofs.Source.Include
import Stencil.Proofs.Source.Order

/-!
# The order of include lines

Sorting blocks of includes reads the lines that layout gives out, and nothing else. An include line
is given out at its place; it is one still unless it belongs to a comment that is indented
(`SortedAsInclude`). Two include lines change places exactly if all lines from the one to the other
are such lines and the second comes first in the order of a block (`exists_include_lt_iff`), in a
function body as well as outside (`includes_of_body_sorted`).
-/

namespace Stencil.Source

open Text

/-- The line is an include line when it is given out: it starts in the first column, and if it
belongs to a comment it is not indented. -/
def SortedAsInclude (lines : List Line) (k : Fin lines.length) : Prop :=
  isInclude (lines.get k) = true ∧
    (kindAt lines k = .preprocessor ∨ (stateBefore lines k).level = 0)

section sorted

variable {lines : List Line} {i j k : Fin lines.length}

theorem includeLevel_eq_zero_iff (h : isInclude (lines.get k) = true) :
    (stateBefore lines k).includeLevel = 0 ↔
      kindAt lines k = .preprocessor ∨ (stateBefore lines k).level = 0 := by
  rw [kindAt, Layout.classify_of_isInclude h, Layout.includeLevel]
  cases (stateBefore lines k).inComment with
  | true => simp
  | false => simp

/-- An include line is given out at its place, held back or not. -/
theorem getElem?_run_of_isInclude (h : isInclude (lines.get k) = true) :
    (Layout.run {} lines)[k.val]? =
      some (normalize (stateBefore lines k).includeLevel (lines.get k)) := by
  obtain ⟨out, hplace, hrun⟩ := exists_run_eq k
  rw [hrun, Layout.run_cons_of_isInclude h, ← List.append_assoc,
    List.getElem?_append_right hplace.le, hplace, Nat.sub_self]
  rfl

variable {σ : Fin lines.length ≃ Fin (Layout.run {} lines).length}
  (hσ : Layout.LaidBy (Layout.runFlags {} lines) lines (Layout.run {} lines) σ)

include hσ

/-- A place holds an include line in the lines given out exactly if it does so in the text and the
line is given out as one. -/
theorem flag_eq_some_true_iff :
    ((Layout.run {} lines).map isInclude)[k.val]? = some true ↔ SortedAsInclude lines k := by
  constructor
  · intro hflag
    rw [List.getElem?_map, Option.map_eq_some_iff] at hflag
    obtain ⟨line, hline, hinclude⟩ := hflag
    obtain ⟨hk, hget⟩ := List.getElem?_eq_some_iff.1 hline
    obtain ⟨i, hi⟩ := σ.surjective ⟨k, hk⟩
    -- Layout moves lines of runs only, and none of them is an include line.
    have hout : isInclude ((Layout.run {} lines).get (σ i)) = true := by
      rw [hi, List.get_eq_getElem, hget, hinclude]
    have hik : i = k := by
      have hplace := hσ.val_eq_of_isInclude hout
      rw [hi] at hplace
      exact Fin.ext hplace.symm
    subst hik
    rw [getElem?_run_of_isInclude ((hσ.shows i).isInclude hout).1, Option.some.injEq] at hline
    rw [← hline, isInclude_normalize_iff] at hinclude
    exact ⟨hinclude.2, (includeLevel_eq_zero_iff hinclude.2).1 hinclude.1⟩
  · rintro ⟨hinclude, hlevel⟩
    rw [← includeLevel_eq_zero_iff hinclude] at hlevel
    rw [List.getElem?_map, getElem?_run_of_isInclude hinclude, Option.map_some, hlevel,
      (isInclude_normalize_iff 0 (lines.get k)).2 ⟨rfl, hinclude⟩]

theorem sameRun_iff_sortedAsInclude (hij : i < j) :
    SameRun ((Layout.run {} lines).map isInclude) i j ↔
      ∀ k, i ≤ k → k ≤ j → SortedAsInclude lines k := by
  constructor
  · intro hsame k hik hkj
    rw [← flag_eq_some_true_iff hσ]
    exact hsame.between hik hkj
  · intro hall k hik hkj
    have hle : i.val ≤ j.val := hij.le
    rw [min_eq_left hle] at hik
    rw [max_eq_right hle] at hkj
    exact (flag_eq_some_true_iff hσ (k := ⟨k, hkj.trans_lt j.isLt⟩)).2 (hall _ hik hkj)

/-- Layout leaves such a line at its place and in the first column. -/
theorem SortedAsInclude.laid (h : SortedAsInclude lines k) :
    (σ k).val = k ∧ (Layout.run {} lines).get (σ k) = normalize 0 (lines.get k) := by
  have hline := getElem?_run_of_isInclude h.1
  obtain ⟨hk, hget⟩ := List.getElem?_eq_some_iff.1 hline
  have hflag := (flag_eq_some_true_iff hσ).2 h
  have hplace : (σ k).val = k := by
    refine hσ.val_eq_of_not_inRun fun hrun => ?_
    have hnot := hσ.not_isInclude_of_flag (k := ⟨k, hk⟩) hrun
    exact Bool.false_ne_true (hnot.symm.trans (isInclude_of_flag (i := ⟨k, hk⟩) hflag))
  have hlaid : σ k = ⟨k, hk⟩ := Fin.ext hplace
  refine ⟨hplace, ?_⟩
  rw [hlaid, List.get_eq_getElem, hget, (includeLevel_eq_zero_iff h.1).2 h.2]

end sorted

/-- A line that starts with `#include`, perhaps behind blanks, is no declaration. -/
theorem isDeclaration_of_includeStart {line : Line} (h : includeStart <+: trim line) :
    isDeclaration line = false := by
  obtain ⟨rest, hrest⟩ := h
  rw [isDeclaration, Declaration.parse?_eq_none_of_head?]
  · rfl
  · intro c hc
    rw [← hrest] at hc
    cases hc
    decide

/-- Sorting puts a line in front of one before it exactly if both are in one block and its header
comes first. -/
theorem lt_iff_of_blockBefore {out sorted : List Line} {flags : List Bool}
    {τ : Fin out.length ≃ Fin sorted.length}
    (hτ : ∀ a b, τ a < τ b → BlockBefore flags (out.get a, a.val) (out.get b, b.val))
    {a b : Fin out.length} (hab : a < b) :
    τ b < τ a ↔ SameRun flags a b ∧ compareIncludes (out.get b) (out.get a) = .lt := by
  constructor
  · intro hlt
    have hback := hτ b a hlt
    have hsame : SameRun flags b a := by
      by_contra hnot
      exact lt_asymm hab (hback.lt hnot)
    have hnot : ¬(compareIncludes (out.get a) (out.get b)).isLE = true :=
      fun hle => lt_asymm hab ((hback.order hsame).2 hle)
    refine ⟨hsame.symm, ?_⟩
    rw [Bool.not_eq_true, Ordering.isLE_eq_false] at hnot
    exact Std.OrientedCmp.lt_of_gt hnot
  · rintro ⟨hsame, hcompare⟩
    by_contra hnot
    have hlt := Layout.lt_of_not_lt (Fin.ne_of_lt hab).symm hnot
    have hle := ((hτ a b hlt).order hsame).1
    rw [Std.OrientedCmp.gt_of_lt hcompare] at hle
    cases hle

/-- A line that starts with `#include`, in a function body or outside, goes in front of a line
before it exactly if all lines from that to this are given out as include lines and this one comes
first in the order of a block. -/
theorem exists_include_lt_iff (lines : List Line) :
    ∃ σ : Fin lines.length ≃ Fin (formatLines lines).length,
      FormatsBy lines (formatLines lines) σ ∧
      ∀ i j : Fin lines.length, i < j → includeStart <+: trim (lines.get j) →
        (σ j < σ i ↔
          (∀ k, i ≤ k → k ≤ j → SortedAsInclude lines k) ∧
          compareIncludes (normalize 0 (lines.get j)) (normalize 0 (lines.get i)) = .lt) := by
  unfold formatLines
  obtain ⟨zs, hlaid⟩ := Layout.exists_laid lines
  obtain ⟨σ, hσ⟩ := hlaid.exists_laidBy
  obtain ⟨τ, hget, hmoves, hτ⟩ := exists_ordered_sortIncludes (Layout.run {} lines)
  refine ⟨σ.trans τ, formatsBy_of_laidBy hσ hget hmoves, fun i j hij hj => ?_⟩
  have hkept : σ i < σ j := hσ.lt_of_not_isDeclaration (isDeclaration_of_includeStart hj) hij
  rw [Equiv.trans_apply, Equiv.trans_apply, lt_iff_of_blockBefore hτ hkept]
  constructor
  · rintro ⟨hsame, hcompare⟩
    have hi := hσ.val_eq_of_isInclude (isInclude_of_sameRun hsame)
    have hj := hσ.val_eq_of_isInclude (isInclude_of_sameRun hsame.symm)
    rw [hi, hj, sameRun_iff_sortedAsInclude hσ hij] at hsame
    rw [((hsame i le_rfl hij.le).laid hσ).2, ((hsame j hij.le le_rfl).laid hσ).2] at hcompare
    exact ⟨hsame, hcompare⟩
  · rintro ⟨hall, hcompare⟩
    obtain ⟨hi, hgeti⟩ := (hall i le_rfl hij.le).laid hσ
    obtain ⟨hj, hgetj⟩ := (hall j hij.le le_rfl).laid hσ
    rw [hgeti, hgetj, hi, hj]
    exact ⟨(sameRun_iff_sortedAsInclude hσ hij).2 hall, hcompare⟩

/-- A function whose body holds a block of includes that is not in order. -/
def includesInBody : List Line :=
  ["f()", "\x7b", "#include \"b.h\"", "#include \"a.h\"", "\x7d"].map String.toList

/-- The includes of a function body change places, whichever lines of the formatted text are taken
for the lines of the text. -/
theorem includes_of_body_sorted :
    formatLines includesInBody =
        ["f()", "\x7b", "#include \"a.h\"", "#include \"b.h\"", "\x7d"].map String.toList ∧
      ∃ i j : Fin includesInBody.length, i < j ∧
        InFunction includesInBody i ∧ InFunction includesInBody j ∧
        includeStart <+: includesInBody.get i ∧ includeStart <+: includesInBody.get j ∧
        ∀ σ : Fin includesInBody.length ≃ Fin (formatLines includesInBody).length,
          (∀ k, ink ((formatLines includesInBody).get (σ k)) = ink (includesInBody.get k)) →
            σ j < σ i := by
  refine ⟨by decide +kernel, ⟨2, by decide⟩, ⟨3, by decide⟩, by decide, by decide +kernel,
    by decide +kernel, by decide, by decide, fun σ hσ => ?_⟩
  have hplaces : ∀ k : Fin (formatLines includesInBody).length,
      (ink ((formatLines includesInBody).get k) = "#include\"b.h\"".toList → k.val = 3) ∧
        (ink ((formatLines includesInBody).get k) = "#include\"a.h\"".toList → k.val = 2) := by
    decide +kernel
  have hfirst := (hplaces _).1 ((hσ ⟨2, by decide⟩).trans (by decide))
  have hsecond := (hplaces _).2 ((hσ ⟨3, by decide⟩).trans (by decide))
  rw [Fin.lt_def, hfirst, hsecond]
  decide

end Stencil.Source
