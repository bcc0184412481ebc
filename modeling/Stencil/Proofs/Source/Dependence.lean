import Stencil.Proofs.Source.Initializer
import Stencil.Proofs.Source.Order

/-!
# Declarations that use each other

A declaration may use in its initializer what another declaration of its run declares, and then has
to stand behind it. Declaration order is read off the declarations alone and asks for none of this.
So a run in which each declaration stands behind those that it uses is formatted to such a run if
and only if each of them may precede it in declaration order (`definedFirst_formatLines_iff`).
-/

namespace Stencil.Source

open Text

/-- Whether the initializer of a declaration uses what another line declares. -/
def refersTo (line other : Line) : Bool :=
  isDeclaration line && (uses line).any fun name => declares other = some name

section run

variable (flags : List Bool) (k : Nat) (lines : List Line)

/-- No two declarations of the run of `k` are of one identifier. -/
def DistinctNames : Prop :=
  ∀ i j : Fin lines.length, SameRun flags k i → SameRun flags k j →
    isDeclaration (lines.get i) = true → declares (lines.get i) = declares (lines.get j) → i = j

/-- What a declaration of the run of `k` uses of the run is declared on an earlier line of it. -/
def DefinedFirst : Prop :=
  ∀ i j : Fin lines.length, SameRun flags k i → SameRun flags k j →
    refersTo (lines.get j) (lines.get i) = true →
      ∃ i', i' < j ∧ SameRun flags k i' ∧ declares (lines.get i') = declares (lines.get i)

instance : Decidable (DistinctNames flags k lines) :=
  inferInstanceAs (Decidable (∀ i j : Fin lines.length, SameRun flags k i → SameRun flags k j →
    isDeclaration (lines.get i) = true → declares (lines.get i) = declares (lines.get j) → i = j))

instance : Decidable (DefinedFirst flags k lines) :=
  inferInstanceAs (Decidable (∀ i j : Fin lines.length, SameRun flags k i → SameRun flags k j →
    refersTo (lines.get j) (lines.get i) = true →
      ∃ i', i' < j ∧ SameRun flags k i' ∧ declares (lines.get i') = declares (lines.get i)))

variable {flags k lines}

theorem isDeclaration_of_refersTo {line other : Line} (h : refersTo line other = true) :
    isDeclaration line = true ∧ isDeclaration other = true := by
  rw [refersTo, Bool.and_eq_true, List.any_eq_true] at h
  obtain ⟨hline, name, -, hname⟩ := h
  refine ⟨hline, ?_⟩
  rw [decide_eq_true_eq] at hname
  rw [← isSome_declares, hname]
  rfl

/-- With distinct names there is one line only that may declare a name. -/
theorem DistinctNames.definedFirst_iff (h : DistinctNames flags k lines) :
    DefinedFirst flags k lines ↔ ∀ i j : Fin lines.length, SameRun flags k i → SameRun flags k j →
      refersTo (lines.get j) (lines.get i) = true → i < j := by
  constructor
  · intro hfirst i j hi hj hrefers
    obtain ⟨i', hlt, hi', hsame⟩ := hfirst i j hi hj hrefers
    rwa [h i i' hi hi' (isDeclaration_of_refersTo hrefers).2 hsame.symm]
  · exact fun hlt i j hi hj hrefers => ⟨i, hlt i j hi hj hrefers, hi, rfl⟩

end run

theorem isInclude_of_isDeclaration {line : Line} (h : isDeclaration line = true) :
    isInclude line = false := by
  refine isInclude_of_head?_trim fun hhash => ?_
  rw [isDeclaration, Declaration.parse?_eq_none_of_head?] at h
  · cases h
  · intro c hc
    rw [hhash] at hc
    cases hc
    decide

namespace FormatsBy

variable {lines out : List Line} {σ : Fin lines.length ≃ Fin out.length}
  (h : FormatsBy lines out σ)

include h

theorem declares_eq (i : Fin lines.length) : declares (out.get (σ i)) = declares (lines.get i) :=
  (h.written i).declares_eq

theorem isDeclaration_eq (i : Fin lines.length) :
    isDeclaration (out.get (σ i)) = isDeclaration (lines.get i) := by
  rw [← isSome_declares, ← isSome_declares, h.declares_eq]

theorem refersTo_eq (i j : Fin lines.length) :
    refersTo (out.get (σ j)) (out.get (σ i)) = refersTo (lines.get j) (lines.get i) := by
  rw [refersTo, refersTo, h.isDeclaration_eq, h.declares_eq, (h.written j).uses_eq]

theorem distinctNames {k : Nat} (hnames : DistinctNames (Layout.runFlags {} lines) k lines) :
    DistinctNames (Layout.runFlags {} lines) k out := by
  intro p q hp hq hdeclaration hsame
  obtain ⟨i, rfl⟩ := σ.surjective p
  obtain ⟨j, rfl⟩ := σ.surjective q
  rw [h.isDeclaration_eq] at hdeclaration
  rw [h.declares_eq, h.declares_eq] at hsame
  rw [hnames i j ((h.together_iff k i).1 hp) ((h.together_iff k j).1 hq) hdeclaration hsame]

end FormatsBy

/-- In the formatted text each declaration of a run stands behind those of the run that it uses, as
it did before, if and only if each of these may precede it in declaration order. -/
theorem definedFirst_formatLines_iff (lines : List Line) (k : Nat)
    (hnames : DistinctNames (Layout.runFlags {} lines) k lines)
    (hfirst : DefinedFirst (Layout.runFlags {} lines) k lines) :
    DefinedFirst (Layout.runFlags {} lines) k (formatLines lines) ↔
      ∀ i j : Fin lines.length, Together lines k i → Together lines k j →
        refersTo (lines.get j) (lines.get i) = true →
          mayPrecede (lines.get i) (lines.get j) = true := by
  obtain ⟨σ, h⟩ := exists_formatsBy lines
  rw [hnames.definedFirst_iff] at hfirst
  rw [(h.distinctNames hnames).definedFirst_iff]
  have hlt : ∀ i j : Fin lines.length, Together lines k i → Together lines k j →
      refersTo (lines.get j) (lines.get i) = true →
        (σ i < σ j ↔ mayPrecede (lines.get i) (lines.get j) = true) := by
    intro i j hi hj hrefers
    have hinclude := isInclude_of_isDeclaration (isDeclaration_of_refersTo hrefers).1
    rw [h.lt_iff i j (hfirst i j hi hj hrefers) (.inr hinclude)]
    exact forall_prop_of_true (hi.symm.trans hj)
  constructor
  · intro hbefore i j hi hj hrefers
    refine (hlt i j hi hj hrefers).1 (hbefore _ _ ?_ ?_ ?_)
    · exact (h.together_iff k i).2 hi
    · exact (h.together_iff k j).2 hj
    · rwa [h.refersTo_eq]
  · intro hmay p q hp hq hrefers
    obtain ⟨i, rfl⟩ := σ.surjective p
    obtain ⟨j, rfl⟩ := σ.surjective q
    have hi := (h.together_iff k i).1 hp
    have hj := (h.together_iff k j).1 hq
    rw [h.refersTo_eq] at hrefers
    exact (hlt i j hi hj hrefers).2 (hmay i j hi hj hrefers)

/-- A function whose declarations use each other in declaration order. -/
def orderedBody : List Line :=
  ["f()", "\x7b", "\tsize_t length = 4;", "\tuint8_t *data = NULL;", "\tint size = length + 1;",
    "\x7d"].map String.toList

theorem definedFirst_formatLines_orderedBody :
    DistinctNames (Layout.runFlags {} orderedBody) 2 orderedBody ∧
      DefinedFirst (Layout.runFlags {} orderedBody) 2 orderedBody ∧
      DefinedFirst (Layout.runFlags {} orderedBody) 2 (formatLines orderedBody) := by
  have hnames : DistinctNames (Layout.runFlags {} orderedBody) 2 orderedBody := by
    decide +kernel
  have hfirst : DefinedFirst (Layout.runFlags {} orderedBody) 2 orderedBody := by
    decide +kernel
  refine ⟨hnames, hfirst, ?_⟩
  exact (definedFirst_formatLines_iff orderedBody 2 hnames hfirst).2 (by decide +kernel)

/-- A function that declares two variables of one type, the second one by the first. -/
def dependentBody : List Line :=
  ["f()", "\x7b", "\tint b = 1;", "\tint a = b;", "\x7d"].map String.toList

/-- A variable is used before it is declared, as its name comes later in the order of names. -/
theorem use_precedes_declaration :
    DistinctNames (Layout.runFlags {} dependentBody) 2 dependentBody ∧
      DefinedFirst (Layout.runFlags {} dependentBody) 2 dependentBody ∧
      formatLines dependentBody =
        ["f()", "\x7b", "\tint a = b;", "\tint b = 1;", "\x7d"].map String.toList ∧
      ¬DefinedFirst (Layout.runFlags {} dependentBody) 2 (formatLines dependentBody) := by
  decide +kernel

end Stencil.Source
