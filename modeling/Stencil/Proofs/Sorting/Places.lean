import Mathlib.Order.Fin.Basic
import Stencil.Proofs.Rearrangement
import Stencil.Proofs.Sorting

/-!
# The places of sorted elements

A stable sort sends every element of a list to one place: behind the elements that precede it in the
order, and behind those that are alike and came before it. The order of places determines the places
(`val_eq_of_lt_iff`) and the list (`eq_of_lt_iff`), so a list is the sorted one exactly if its
elements stand in this order (`exists_sortedBy_iff`).
-/

namespace Stencil

variable {α : Type} {as out out' : List α} {σ : Fin as.length ≃ Fin out.length}
  {τ : Fin as.length ≃ Fin out'.length}

theorem val_eq_of_lt_iff (h : ∀ i j, σ i < σ j ↔ τ i < τ j) (i : Fin as.length) :
    (σ i).val = (τ i).val := by
  have hle : ∀ k l, (σ.symm.trans τ) k ≤ (σ.symm.trans τ) l ↔ k ≤ l := by
    intro k l
    have hlt := h (σ.symm l) (σ.symm k)
    rw [Equiv.apply_symm_apply, Equiv.apply_symm_apply] at hlt
    rw [Equiv.trans_apply, Equiv.trans_apply, ← not_lt, ← not_lt, hlt]
  have hval : ((σ.symm.trans τ) (σ i)).val = (σ i).val :=
    Fin.coe_orderIso_apply ⟨σ.symm.trans τ, fun {k l} => hle k l⟩ (σ i)
  rw [Equiv.trans_apply, Equiv.symm_apply_apply] at hval
  exact hval.symm

/-- Lists with the same elements in the same order are the same. -/
theorem eq_of_lt_iff (hσ : ∀ i, out.get (σ i) = as.get i) (hτ : ∀ i, out'.get (τ i) = as.get i)
    (h : ∀ i j, σ i < σ j ↔ τ i < τ j) : out = out' := by
  have hlength : out.length = out'.length := by
    have hcard := Fintype.card_congr (σ.symm.trans τ)
    rwa [Fintype.card_fin, Fintype.card_fin] at hcard
  refine List.ext_get hlength fun k hk hk' => ?_
  obtain ⟨i, hi⟩ := σ.surjective ⟨k, hk⟩
  have hi' : τ i = ⟨k, hk'⟩ := Fin.ext ((val_eq_of_lt_iff h i).symm.trans (congrArg Fin.val hi))
  rw [← hi, ← hi', hσ, hτ]

/-- `σ` tells where each element of `as` stands in `out`: before those that it may precede, unless
these may precede it as well and came before it. -/
structure SortedBy (le : α → α → Bool) (as out : List α)
    (σ : Fin as.length ≃ Fin out.length) : Prop where
  get_eq : ∀ i, out.get (σ i) = as.get i
  lt_iff : ∀ i j, σ i < σ j ↔
    le (as.get i) (as.get j) = true ∧ (le (as.get j) (as.get i) = true → i < j)

variable {le : α → α → Bool}

theorem SortedBy.out_eq (h : SortedBy le as out σ) (h' : SortedBy le as out' τ) : out = out' :=
  eq_of_lt_iff h.get_eq h'.get_eq fun i j => (h.lt_iff i j).trans (h'.lt_iff i j).symm

theorem SortedBy.equiv_eq {ρ : Fin as.length ≃ Fin out.length} (h : SortedBy le as out σ)
    (h' : SortedBy le as out ρ) : σ = ρ :=
  Equiv.ext fun i =>
    Fin.ext (val_eq_of_lt_iff (fun i j => (h.lt_iff i j).trans (h'.lt_iff i j).symm) i)

variable (htrans : ∀ a b c, le a b = true → le b c = true → le a c = true)
  (htotal : ∀ a b, le a b = true ∨ le b a = true)

include htotal

/-- Of two elements one stands before the other, so it is enough to know what follows from that. -/
theorem sortedBy_of_imp (hget : ∀ i, out.get (σ i) = as.get i)
    (h : ∀ i j, σ i < σ j →
      le (as.get i) (as.get j) = true ∧ (le (as.get j) (as.get i) = true → i < j)) :
    SortedBy le as out σ where
  get_eq := hget
  lt_iff i j := by
    refine ⟨h i j, fun ⟨hij, hback⟩ => ?_⟩
    by_contra hnot
    rcases lt_or_eq_of_le (not_lt.1 hnot) with hji | heq
    · obtain ⟨hji, hforth⟩ := h j i hji
      exact lt_asymm (hback hji) (hforth hij)
    · obtain rfl : j = i := σ.injective heq
      exact lt_irrefl j (hback ((htotal _ _).elim id id))

include htrans

/-- The sorted list holds every element at its place. -/
theorem exists_sortedBy_stableSort (as : List α) :
    ∃ σ, SortedBy le as (stableSort le as) σ := by
  have hmap : (stableSort (fun a b : α × Nat => le a.1 b.1) as.zipIdx).map Prod.fst =
      stableSort le (as.zipIdx.map Prod.fst) := stableSort_map (fun _ _ => rfl) _
  rw [List.zipIdx_map_fst] at hmap
  have hplaced : Placed (List.replicate as.length true) 0 as
      (stableSort (fun a b : α × Nat => le a.1 b.1) as.zipIdx) :=
    .of_perm (List.append_nil _).symm (perm_stableSort _ _)
  have hshown : List.Forall₂ (fun (z : α × Nat) (y : α) => y = z.1)
      (stableSort (fun a b : α × Nat => le a.1 b.1) as.zipIdx) (stableSort le as) := by
    rw [← hmap, List.forall₂_map_right_iff, List.forall₂_same]
    exact fun _ _ => rfl
  obtain ⟨σ, hσ, hget, -⟩ := hplaced.exists_equiv hshown
  refine ⟨σ, sortedBy_of_imp htotal hget fun i j hij => ?_⟩
  obtain ⟨hi, hgeti⟩ := List.getElem?_eq_some_iff.1 (hσ i)
  obtain ⟨hj, hgetj⟩ := List.getElem?_eq_some_iff.1 (hσ j)
  have hpair := List.pairwise_iff_getElem.1 (pairwise_stableSort_zipIdx htrans htotal 0 as)
    (σ i) (σ j) hi hj hij
  rwa [hgeti, hgetj] at hpair

/-- A list is the sorted one exactly if the elements stand in it at their places. -/
theorem exists_sortedBy_iff : (∃ σ, SortedBy le as out σ) ↔ out = stableSort le as := by
  obtain ⟨τ, hτ⟩ := exists_sortedBy_stableSort htrans htotal as
  constructor
  · rintro ⟨σ, hσ⟩
    exact hσ.out_eq hτ
  · rintro rfl
    exact ⟨τ, hτ⟩

end Stencil
