import Mathlib.Data.List.Basic
import Stencil.Sorting

/-!
# Stable sorting of marked elements

Sorting commutes with reading the elements off something they come with (`stableSort_map`), such as
the places they had before. Sorting by a total order gives a sorted list (`pairwise_stableSort`), so
that sorting again changes nothing, and elements that are alike stay in the order that they came in
(`stable_stableSort`). So a sorted list holds the elements of each kind as they came
(`filter_stableSort`), and is determined by these (`stableSort_eq_iff_filter`).
-/

namespace Stencil

section map

variable {α β : Type} {le : α → α → Bool} {le' : β → β → Bool} {f : α → β}
  (hle : ∀ a b, le' (f a) (f b) = le a b)

include hle

theorem map_insertSorted (a : α) (as : List α) :
    (insertSorted le a as).map f = insertSorted le' (f a) (as.map f) := by
  induction as with
  | nil => rfl
  | cons b bs ih =>
    simp only [insertSorted, List.map_cons, hle]
    split
    · rfl
    · rw [List.map_cons, ih]

/-- Sorting by what is read off the elements, and reading it off the sorted elements. -/
theorem stableSort_map (as : List α) : (stableSort le as).map f = stableSort le' (as.map f) := by
  induction as with
  | nil => rfl
  | cons a as ih => rw [stableSort, map_insertSorted hle, ih, List.map_cons, stableSort]

end map

section append

variable {α : Type} {le : α → α → Bool}

theorem insertSorted_append_of_le {a : α} {bs : List α} (as : List α)
    (h : ∀ b ∈ bs, le a b = true) : insertSorted le a (as ++ bs) = insertSorted le a as ++ bs := by
  induction as with
  | nil =>
    cases bs with
    | nil => rfl
    | cons b bs =>
      have hb := h b List.mem_cons_self
      simp only [List.nil_append, insertSorted, hb, if_true, List.singleton_append]
  | cons c as ih =>
    simp only [List.cons_append, insertSorted, ih]
    split <;> rfl

/-- An element that may stand after all others stays at the end. -/
theorem stableSort_append_singleton {b : α} (h : ∀ a, le a b = true) (as : List α) :
    stableSort le (as ++ [b]) = stableSort le as ++ [b] := by
  induction as with
  | nil => rfl
  | cons a as ih =>
    have hle : ∀ c ∈ [b], le a c = true := by simpa using h a
    rw [List.cons_append, stableSort, ih, insertSorted_append_of_le _ hle, stableSort]

end append

theorem isLE_or_isLE {α : Type} {cmp : α → α → Ordering} [Std.OrientedCmp cmp] (a b : α) :
    (cmp a b).isLE = true ∨ (cmp b a).isLE = true := by
  rw [← Std.OrientedCmp.isGE_iff_isLE (a := a)]
  cases cmp a b with
  | lt => exact .inl rfl
  | eq => exact .inl rfl
  | gt => exact .inr rfl

theorem pairwise_zipIdx {α : Type} (start : Nat) (as : List α) :
    (as.zipIdx start).Pairwise fun a b => a.2 < b.2 := by
  have hplaces := List.pairwise_lt_range' (s := start) (n := as.length)
  rw [← List.zipIdx_map_snd, List.pairwise_map] at hplaces
  exact hplaces

section order

variable {α : Type} {le : α → α → Bool}
  (htrans : ∀ a b c, le a b = true → le b c = true → le a c = true)
  (htotal : ∀ a b, le a b = true ∨ le b a = true)

include htrans htotal

theorem stable_insertSorted {r : α → α → Prop} {a : α} {as : List α} (ha : ∀ b ∈ as, r a b)
    (h : as.Pairwise fun a b => le a b = true ∧ (le b a = true → r a b)) :
    (insertSorted le a as).Pairwise fun a b => le a b = true ∧ (le b a = true → r a b) := by
  induction as with
  | nil => exact List.pairwise_singleton _ _
  | cons b bs ih =>
    obtain ⟨hb, hbs⟩ := List.pairwise_cons.1 h
    rw [List.forall_mem_cons] at ha
    unfold insertSorted
    split
    · next hle =>
      refine List.pairwise_cons.2 ⟨fun c hc => ?_, h⟩
      rcases List.mem_cons.1 hc with rfl | hc
      · exact ⟨hle, fun _ => ha.1⟩
      · exact ⟨htrans _ _ _ hle (hb c hc).1, fun _ => ha.2 c hc⟩
    · next hle =>
      refine List.pairwise_cons.2 ⟨fun c hc => ?_, ih ha.2 hbs⟩
      rcases List.mem_cons.1 ((perm_insertSorted le a bs).mem_iff.1 hc) with rfl | hc
      · exact ⟨(htotal c b).resolve_left hle, fun h => absurd h hle⟩
      · exact hb c hc

/-- The sorted list is in order, and elements that are alike stand as they did before. -/
theorem stable_stableSort {r : α → α → Prop} {as : List α} (h : as.Pairwise r) :
    (stableSort le as).Pairwise fun a b => le a b = true ∧ (le b a = true → r a b) := by
  induction as with
  | nil => exact .nil
  | cons a as ih =>
    obtain ⟨ha, has⟩ := List.pairwise_cons.1 h
    refine stable_insertSorted htrans htotal (fun b hb => ?_) (ih has)
    exact ha b ((perm_stableSort le as).mem_iff.1 hb)

theorem pairwise_stableSort (as : List α) :
    (stableSort le as).Pairwise fun a b => le a b = true := by
  have hany : as.Pairwise fun _ _ => True := List.pairwise_of_forall fun _ _ => trivial
  exact (stable_stableSort htrans htotal hany).imp fun h => h.1

theorem stableSort_stableSort (as : List α) : stableSort le (stableSort le as) = stableSort le as :=
  stableSort_of_pairwise le (pairwise_stableSort htrans htotal as)

/-- Sorting with the places that the elements came from. -/
theorem pairwise_stableSort_zipIdx (start : Nat) (as : List α) :
    (stableSort (fun a b : α × Nat => le a.1 b.1) (as.zipIdx start)).Pairwise fun a b =>
      le a.1 b.1 = true ∧ (le b.1 a.1 = true → a.2 < b.2) := by
  refine stable_stableSort ?_ ?_ (pairwise_zipIdx start as)
  · exact fun a b c => htrans a.1 b.1 c.1
  · exact fun a b => htotal a.1 b.1

end order

/-! ## Elements of one kind -/

section kinds

variable {α : Type} {le : α → α → Bool} {p : α → Bool}

theorem filter_insertSorted (hp : ∀ a b, p a = true → p b = true → le a b = true) (a : α)
    (as : List α) : (insertSorted le a as).filter p = (a :: as).filter p := by
  induction as with
  | nil => rfl
  | cons b bs ih =>
    unfold insertSorted
    split
    · rfl
    · next hle =>
      rw [List.filter_cons, ih]
      -- Of `a` and `b`, which change places, one is not kept.
      cases ha : p a with
      | false => simp [ha, List.filter_cons]
      | true =>
        have hb : ¬p b = true := fun hb => hle (hp a b ha hb)
        simp [ha, hb]

/-- Elements that are alike are sorted as they come. -/
theorem filter_stableSort (hp : ∀ a b, p a = true → p b = true → le a b = true) (as : List α) :
    (stableSort le as).filter p = as.filter p := by
  induction as with
  | nil => rfl
  | cons a as ih => rw [stableSort, filter_insertSorted hp, List.filter_cons, List.filter_cons, ih]

theorem le_head_of_pairwise (hrefl : ∀ a, le a a = true) {a b : α} {as : List α}
    (has : (a :: as).Pairwise fun a b => le a b = true) (hb : b ∈ a :: as) : le a b = true := by
  rcases List.mem_cons.1 hb with rfl | hb
  · exact hrefl b
  · exact (List.pairwise_cons.1 has).1 b hb

variable {κ : Type} [DecidableEq κ] {key : α → κ}

theorem mem_iff_of_filter_eq {as bs : List α}
    (h : ∀ k, as.filter (fun a => key a = k) = bs.filter (fun a => key a = k)) (a : α) :
    a ∈ as ↔ a ∈ bs := by
  have hfilter : a ∈ as.filter (fun b => key b = key a) ↔
      a ∈ bs.filter (fun b => key b = key a) := by rw [h]
  simpa using hfilter

variable (hkey : ∀ a b, le a b = true ∧ le b a = true ↔ key a = key b)

include hkey

/-- Sorted lists are the same if they hold the same elements of each key in the same order. -/
theorem eq_of_filter_eq {as bs : List α} (has : as.Pairwise fun a b => le a b = true)
    (hbs : bs.Pairwise fun a b => le a b = true)
    (h : ∀ k, as.filter (fun a => key a = k) = bs.filter (fun a => key a = k)) : as = bs := by
  induction as generalizing bs with
  | nil =>
    refine (List.eq_nil_iff_forall_not_mem.2 fun b hb => ?_).symm
    exact List.not_mem_nil ((mem_iff_of_filter_eq h b).2 hb)
  | cons a as ih =>
    cases bs with
    | nil => exact absurd ((mem_iff_of_filter_eq h a).1 List.mem_cons_self) List.not_mem_nil
    | cons b bs =>
      have hrefl : ∀ c, le c c = true := fun c => ((hkey c c).2 rfl).1
      have hle := le_head_of_pairwise hrefl has ((mem_iff_of_filter_eq h b).2 List.mem_cons_self)
      have hge := le_head_of_pairwise hrefl hbs ((mem_iff_of_filter_eq h a).1 List.mem_cons_self)
      have hsame : key a = key b := (hkey a b).1 ⟨hle, hge⟩
      have hhead := h (key b)
      rw [List.filter_cons_of_pos (by simpa using hsame), List.filter_cons_of_pos (by simp)]
        at hhead
      obtain rfl : a = b := (List.cons.inj hhead).1
      refine congrArg (a :: ·) (ih (List.pairwise_cons.1 has).2 (List.pairwise_cons.1 hbs).2 ?_)
      intro k
      have hcons := h k
      rw [List.filter_cons, List.filter_cons] at hcons
      split at hcons
      · exact (List.cons.inj hcons).2
      · exact hcons

/-- Lists are sorted alike exactly if they hold the same elements of each key in the same order. -/
theorem stableSort_eq_iff_filter
    (htrans : ∀ a b c, le a b = true → le b c = true → le a c = true)
    (htotal : ∀ a b, le a b = true ∨ le b a = true) (as bs : List α) :
    stableSort le as = stableSort le bs ↔
      ∀ k, as.filter (fun a => key a = k) = bs.filter (fun a => key a = k) := by
  have hfilter : ∀ k (cs : List α),
      (stableSort le cs).filter (fun a => key a = k) = cs.filter (fun a => key a = k) := by
    refine fun k cs => filter_stableSort (fun a b ha hb => ?_) cs
    rw [decide_eq_true_eq] at ha hb
    exact ((hkey a b).2 (ha.trans hb.symm)).1
  constructor
  · intro h k
    rw [← hfilter, h, hfilter]
  · intro h
    refine eq_of_filter_eq hkey (pairwise_stableSort htrans htotal as)
      (pairwise_stableSort htrans htotal bs) fun k => ?_
    rw [hfilter, hfilter, h]

end kinds

end Stencil
