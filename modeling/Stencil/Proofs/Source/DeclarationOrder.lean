import Mathlib.Data.List.Pairwise
import Stencil.Proofs.Sorting.Places
import Stencil.Proofs.Source.Layout

/-!
# Sorted declarations

Declarations are compared by a total preorder, in which two are alike only if they agree in all that
it looks at (`OrdersDeclarations`). Sorted lines are the one arrangement in which the declarations
come first and in order, and all lines that this leaves open stand as they came
(`InDeclarationOrder`). The result of sorting depends on nothing else
(`sortDeclarations_stable_unique`).
-/

namespace Stencil.Source

/-- `cmp` is a total preorder of declarations that looks at the star, the rank and the stem of the
type, and the name. -/
structure OrdersDeclarations (cmp : Declaration → Declaration → Ordering) : Prop where
  total : ∀ a b, (cmp a b).isLE = true ∨ (cmp b a).isLE = true
  trans : ∀ a b c, (cmp a b).isLE = true → (cmp b c).isLE = true → (cmp a c).isLE = true
  swap : ∀ a b, cmp b a = (cmp a b).swap
  eq_iff : ∀ a b, cmp a b = .eq ↔
    a.isPointer = b.isPointer ∧ a.rank = b.rank ∧ a.stem = b.stem ∧ a.name = b.name

/-- `σ` tells where each of the lines stands in `out`, declarations first and in order. -/
structure InDeclarationOrder (lines out : List Line)
    (σ : Fin lines.length ≃ Fin out.length) : Prop where
  get_eq : ∀ i, out.get (σ i) = lines.get i
  declarations_first : ∀ i j, isDeclaration (lines.get i) = true →
    isDeclaration (lines.get j) = false → σ i < σ j
  declarations_sorted : ∀ i j d e, Declaration.parse? (lines.get i) = some d →
    Declaration.parse? (lines.get j) = some e → σ i < σ j → (d.compare e).isLE = true
  alike_in_order : ∀ i j d e, Declaration.parse? (lines.get i) = some d →
    Declaration.parse? (lines.get j) = some e → d.compare e = .eq → i < j → σ i < σ j
  others_in_order : ∀ i j, isDeclaration (lines.get i) = false →
    isDeclaration (lines.get j) = false → i < j → σ i < σ j

/-- Two lines that are not declarations alike. -/
def ToldApart (a b : Line) : Prop :=
  ∀ d e, Declaration.parse? a = some d → Declaration.parse? b = some e → d.compare e ≠ .eq

instance : Std.Symm ToldApart where
  symm _ _ h d e hd he heq := h e d he hd (Std.OrientedCmp.eq_symm heq)

/-! ## The order of declarations -/

theorem Declaration.compare_eq_eq_iff (a b : Declaration) :
    a.compare b = .eq ↔
      a.isPointer = b.isPointer ∧ a.rank = b.rank ∧ a.stem = b.stem ∧ a.name = b.name := by
  simp only [Declaration.compare, Ordering.then_eq_eq, Std.LawfulEqOrd.compare_eq_iff_eq,
    Bool.not_inj_iff]

theorem ordersDeclarations_compare : OrdersDeclarations Declaration.compare where
  total := isLE_or_isLE
  trans _ _ _ := Std.TransCmp.isLE_trans
  swap _ _ := Std.OrientedCmp.eq_swap
  eq_iff := Declaration.compare_eq_eq_iff

theorem Declaration.compare_eq_eq_of_isLE {a b : Declaration} (h : (a.compare b).isLE = true)
    (h' : (b.compare a).isLE = true) : a.compare b = .eq :=
  Std.OrientedCmp.isLE_antisymm h h'

/-! ## The order of lines -/

section order

variable {a b : Line} {d e : Declaration}

theorem order_of_parse? (ha : Declaration.parse? a = some d) (hb : Declaration.parse? b = some e) :
    sortDeclarations.order a b = (d.compare e).isLE := by
  rw [sortDeclarations.order, ha, hb]

theorem order_of_isDeclaration (ha : isDeclaration a = false) (hb : isDeclaration b = true) :
    sortDeclarations.order a b = false := by
  rw [isDeclaration, Option.isSome_eq_false_iff, Option.isNone_iff_eq_none] at ha
  obtain ⟨e, he⟩ := Option.isSome_iff_exists.1 hb
  rw [sortDeclarations.order, ha, he]

end order

section places

variable {lines out : List Line} {σ : Fin lines.length ≃ Fin out.length}

theorem InDeclarationOrder.sortedBy (h : InDeclarationOrder lines out σ) :
    SortedBy sortDeclarations.order lines out σ := by
  refine sortedBy_of_imp order_total h.get_eq fun i j hij => ?_
  have hback : ¬σ j < σ i := lt_asymm hij
  have hne : i ≠ j := fun heq => hij.ne (congrArg σ heq)
  cases hj : isDeclaration (lines.get j) with
  | false =>
    refine ⟨order_of_not_isDeclaration _ hj, fun hmay => ?_⟩
    cases hi : isDeclaration (lines.get i) with
    | true =>
      rw [order_of_isDeclaration hj hi] at hmay
      cases hmay
    | false =>
      refine lt_of_le_of_ne (not_lt.1 fun hji => ?_) hne
      exact hback (h.others_in_order j i hj hi hji)
  | true =>
    cases hi : isDeclaration (lines.get i) with
    | false => exact absurd (h.declarations_first j i hj hi) hback
    | true =>
      obtain ⟨d, hd⟩ := Option.isSome_iff_exists.1 hi
      obtain ⟨e, he⟩ := Option.isSome_iff_exists.1 hj
      have hle := h.declarations_sorted i j d e hd he hij
      rw [order_of_parse? hd he, order_of_parse? he hd]
      refine ⟨hle, fun hge => lt_of_le_of_ne (not_lt.1 fun hji => ?_) hne⟩
      exact hback (h.alike_in_order j i e d he hd (Declaration.compare_eq_eq_of_isLE hge hle) hji)

theorem SortedBy.inDeclarationOrder (h : SortedBy sortDeclarations.order lines out σ) :
    InDeclarationOrder lines out σ where
  get_eq := h.get_eq
  declarations_first i j hi hj := by
    refine (h.lt_iff i j).2 ⟨order_of_not_isDeclaration _ hj, fun hmay => ?_⟩
    rw [order_of_isDeclaration hj hi] at hmay
    cases hmay
  declarations_sorted i j d e hd he hij := by
    rw [← order_of_parse? hd he]
    exact ((h.lt_iff i j).1 hij).1
  alike_in_order i j d e hd he heq hij := by
    refine (h.lt_iff i j).2 ⟨?_, fun _ => hij⟩
    rw [order_of_parse? hd he, heq]
    rfl
  others_in_order i j _ hj hij := (h.lt_iff i j).2 ⟨order_of_not_isDeclaration _ hj, fun _ => hij⟩

theorem inDeclarationOrder_iff_sortedBy :
    InDeclarationOrder lines out σ ↔ SortedBy sortDeclarations.order lines out σ :=
  ⟨InDeclarationOrder.sortedBy, SortedBy.inDeclarationOrder⟩

end places

/-! ## Sorting -/

theorem exists_inDeclarationOrder_iff {lines out : List Line} :
    (∃ σ, InDeclarationOrder lines out σ) ↔ out = sortDeclarations lines := by
  simp only [inDeclarationOrder_iff_sortedBy]
  exact exists_sortedBy_iff order_trans order_total

theorem existsUnique_inDeclarationOrder (lines : List Line) :
    ∃! σ, InDeclarationOrder lines (sortDeclarations lines) σ := by
  obtain ⟨σ, hσ⟩ := exists_inDeclarationOrder_iff.2 (Eq.refl (sortDeclarations lines))
  exact ⟨σ, hσ, fun τ hτ => hτ.sortedBy.equiv_eq hσ.sortedBy⟩

/-- Declarations of which no two are alike have one order, however they come. -/
theorem sortDeclarations_eq_of_perm {lines lines' : List Line} (hperm : lines.Perm lines')
    (hdeclarations : ∀ line ∈ lines, isDeclaration line = true)
    (hapart : lines.Pairwise ToldApart) :
    sortDeclarations lines = sortDeclarations lines' := by
  have hsorted : ∀ ls : List Line,
      (sortDeclarations ls).Pairwise fun a b => sortDeclarations.order a b = true :=
    pairwise_stableSort order_trans order_total
  have hmem : ∀ line ∈ sortDeclarations lines, line ∈ lines :=
    fun line => (perm_stableSort _ lines).mem_iff.1
  have hmem' : ∀ line ∈ sortDeclarations lines', line ∈ lines :=
    fun line hline => hperm.mem_iff.2 ((perm_stableSort _ lines').mem_iff.1 hline)
  refine List.Perm.eq_of_pairwise ?_ (hsorted lines) (hsorted lines') ?_
  · intro a b ha hb hab hba
    obtain ⟨d, hd⟩ := Option.isSome_iff_exists.1 (hdeclarations a (hmem a ha))
    obtain ⟨e, he⟩ := Option.isSome_iff_exists.1 (hdeclarations b (hmem' b hb))
    rw [order_of_parse? hd he] at hab
    rw [order_of_parse? he hd] at hba
    by_contra hne
    exact hapart.forall (hmem a ha) (hmem' b hb) hne d e hd he
      (Declaration.compare_eq_eq_of_isLE hab hba)
  · exact (perm_stableSort _ lines).trans (hperm.trans (perm_stableSort _ lines').symm)

/-- Declarations are compared by a total preorder. Sorting gives the one arrangement of the lines
with the declarations in front and in order and all that is left open as it came. So sorting twice
is sorting once, and declarations that are told apart sort alike in whichever order they come. -/
theorem sortDeclarations_stable_unique :
    OrdersDeclarations Declaration.compare ∧
      (∀ lines out : List Line,
        (∃ σ, InDeclarationOrder lines out σ) ↔ out = sortDeclarations lines) ∧
      (∀ lines : List Line, ∃! σ, InDeclarationOrder lines (sortDeclarations lines) σ) ∧
      (∀ lines : List Line,
        sortDeclarations (sortDeclarations lines) = sortDeclarations lines) ∧
      ∀ lines lines' : List Line, lines.Perm lines' →
        (∀ line ∈ lines, isDeclaration line = true) → lines.Pairwise ToldApart →
        sortDeclarations lines = sortDeclarations lines' :=
  ⟨ordersDeclarations_compare, fun _ _ => exists_inDeclarationOrder_iff,
    existsUnique_inDeclarationOrder, stableSort_stableSort order_trans order_total,
    fun _ _ => sortDeclarations_eq_of_perm⟩

end Stencil.Source
