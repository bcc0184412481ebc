import Mathlib.Data.Fintype.EquivFin
import Mathlib.Data.List.Basic

/-!
# Rearrangements within runs

Some places of a list are marked, and an element may move only among marked places with no other
place between. The elements are followed through a rearrangement by the places they came from:
`Placed flags start xs zs` says that `zs` are the elements of `xs`, whose first stands at `start`,
each with its place, and that no element has moved out of its run. Such lists can be put one after
the other (`Placed.append`), and a rearrangement of a whole list is a bijection of its places
(`Placed.exists_equiv`).
-/

namespace Stencil

/-- The places from `i` to `j`, whichever comes first, are all marked. -/
def SameRun (flags : List Bool) (i j : Nat) : Prop :=
  ∀ k, min i j ≤ k → k ≤ max i j → flags[k]? = some true

variable {flags rest : List Bool} {i j k : Nat}

theorem SameRun.symm (h : SameRun flags i j) : SameRun flags j i := by
  intro k hleft hright
  exact h k (by omega) (by omega)

theorem SameRun.left (h : SameRun flags i j) : flags[i]? = some true :=
  h i (by omega) (by omega)

theorem SameRun.right (h : SameRun flags i j) : flags[j]? = some true :=
  h.symm.left

theorem SameRun.between (h : SameRun flags i j) (hi : i ≤ k) (hj : k ≤ j) :
    flags[k]? = some true :=
  h k (by omega) (by omega)

theorem SameRun.trans (h : SameRun flags i j) (h' : SameRun flags j k) : SameRun flags i k := by
  intro l hleft hright
  by_cases hl : min i j ≤ l ∧ l ≤ max i j
  · exact h l hl.1 hl.2
  · exact h' l (by omega) (by omega)

instance : Decidable (SameRun flags i j) :=
  inferInstanceAs (Decidable (∀ k, min i j ≤ k → k ≤ max i j → flags[k]? = some true))

theorem getElem?_of_drop (h : flags.drop i = rest) (k : Nat) : flags[i + k]? = rest[k]? := by
  rw [← h, List.getElem?_drop]

theorem drop_of_drop_append {front : List Bool} (h : flags.drop i = front ++ rest) :
    flags.drop (i + front.length) = rest := by
  rw [← List.drop_drop, h, List.drop_left]

theorem drop_of_drop_cons {flag : Bool} (h : flags.drop i = flag :: rest) :
    flags.drop (i + 1) = rest := by
  rw [← List.drop_drop, h, List.drop_succ_cons, List.drop_zero]

/-- The places of marks that follow one another. -/
theorem sameRun_of_drop {n : Nat} (h : flags.drop k = List.replicate n true ++ rest)
    (hi : k ≤ i) (hi' : i < k + n) (hj : k ≤ j) (hj' : j < k + n) : SameRun flags i j := by
  intro l hleft hright
  obtain ⟨d, rfl⟩ := Nat.exists_eq_add_of_le (show k ≤ l by omega)
  rw [getElem?_of_drop h, List.getElem?_append_left (by rw [List.length_replicate]; omega),
    List.getElem?_replicate, if_pos (by omega)]

variable {α : Type} {start : Nat} {xs xs' : List α} {zs zs' : List (α × Nat)}

/-- `zs` are the elements of `xs` with the places they came from, counted from `start`, and none has
moved out of its run. -/
structure Placed (flags : List Bool) (start : Nat) (xs : List α) (zs : List (α × Nat)) : Prop where
  /-- No element is lost or doubled. -/
  perm : zs.Perm (xs.zipIdx start)
  /-- An element that has moved is in the run of the place it moved to. -/
  moves : ∀ (k : Nat) (z : α × Nat), zs[k]? = some z →
    z.2 = start + k ∨ SameRun flags z.2 (start + k)

namespace Placed

theorem length_eq (h : Placed flags start xs zs) : zs.length = xs.length := by
  rw [h.perm.length_eq, List.length_zipIdx]

/-- The places are those of the list. -/
theorem place_mem (h : Placed flags start xs zs) {z : α × Nat} (hz : z ∈ zs) :
    start ≤ z.2 ∧ z.2 < start + xs.length := by
  have := List.mem_zipIdx (h.perm.mem_iff.1 hz)
  exact ⟨this.1, this.2.1⟩

theorem nil : Placed flags start ([] : List α) [] where
  perm := .refl _
  moves := by
    intro k z hz
    simp at hz

theorem singleton (x : α) : Placed flags start [x] [(x, start)] where
  perm := .refl _
  moves := by
    intro k z hz
    obtain ⟨rfl, rfl⟩ : k = 0 ∧ (x, start) = z := by
      cases k with
      | zero => simpa using hz
      | succ k => simp at hz
    exact .inl rfl

theorem append (h : Placed flags start xs zs) (h' : Placed flags (start + xs.length) xs' zs') :
    Placed flags start (xs ++ xs') (zs ++ zs') where
  perm := by
    rw [List.zipIdx_append]
    exact h.perm.append h'.perm
  moves := by
    intro k z hz
    by_cases hk : k < zs.length
    · rw [List.getElem?_append_left hk] at hz
      exact h.moves k z hz
    · rw [List.getElem?_append_right (by omega)] at hz
      have := h'.moves _ z hz
      rw [h.length_eq] at hk this
      rwa [show start + xs.length + (k - xs.length) = start + k by omega] at this

/-- The elements of marked places in any order. -/
theorem of_perm (hflags : flags.drop start = List.replicate xs.length true ++ rest)
    (hperm : zs.Perm (xs.zipIdx start)) : Placed flags start xs zs where
  perm := hperm
  moves := by
    intro k z hz
    have hk : k < zs.length := List.getElem?_eq_some_iff.1 hz |>.1
    have hlength : zs.length = xs.length := by rw [hperm.length_eq, List.length_zipIdx]
    have hplace := List.mem_zipIdx (hperm.mem_iff.1 (List.mem_of_getElem? hz))
    exact .inr (sameRun_of_drop hflags hplace.1 hplace.2.1 (by omega) (by omega))

/-- A rearrangement of a whole list is a bijection of its places. The elements may be read as others
once they are rearranged. -/
theorem exists_equiv {β : Type} {r : α × Nat → β → Prop} {ys : List β}
    (h : Placed flags 0 xs zs) (hys : List.Forall₂ r zs ys) :
    ∃ σ : Fin xs.length ≃ Fin ys.length,
      (∀ i, zs[(σ i).val]? = some (xs[i], i.val)) ∧ (∀ i, r (xs[i], i.val) ys[σ i]) ∧
      ∀ i, (σ i).val = i ∨ SameRun flags i (σ i) := by
  have hlength : zs.length = ys.length := hys.length_eq
  have hplace : ∀ i : Fin xs.length, ∃ k : Fin ys.length, zs[k.val]? = some (xs[i], i.val) := by
    intro i
    have hmem : (xs[i], i.val) ∈ zs := by
      rw [h.perm.mem_iff, List.mk_mem_zipIdx_iff_getElem?]
      exact List.getElem?_eq_getElem i.isLt
    obtain ⟨k, hk, hget⟩ := List.mem_iff_getElem.1 hmem
    exact ⟨⟨k, hlength ▸ hk⟩, by rw [← hget]; exact List.getElem?_eq_getElem hk⟩
  choose σ hσ using hplace
  have hinjective : Function.Injective σ := by
    intro i j hij
    have heq := hσ i
    rw [hij, hσ j, Option.some.injEq] at heq
    exact Fin.ext (congrArg Prod.snd heq).symm
  have hbijective : Function.Bijective σ := by
    rw [Fintype.bijective_iff_injective_and_card]
    exact ⟨hinjective, by simp [← hlength, h.length_eq]⟩
  refine ⟨Equiv.ofBijective σ hbijective, hσ, fun i => ?_, fun i => ?_⟩
  · obtain ⟨hk, hget⟩ := List.getElem?_eq_some_iff.1 (hσ i)
    have := hys.get hk (σ i).isLt
    rwa [List.get_eq_getElem, hget] at this
  · have hmove := h.moves (σ i) _ (hσ i)
    rw [Nat.zero_add] at hmove
    rcases hmove with hmove | hmove
    · exact .inl hmove.symm
    · exact .inr hmove

end Placed

end Stencil
