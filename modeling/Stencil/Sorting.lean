/-!
# Stable sorting

Sorting by insertion: elements that compare equal keep their order. Main statements: the result is
a permutation (`perm_stableSort`), and a list that is sorted already stays as it is
(`stableSort_of_pairwise`).
-/

namespace Stencil

variable {α : Type u} (le : α → α → Bool)

/-- Whether a list comes before another one, or is the same, as words do in a dictionary; `lt` tells
which of two elements comes first. -/
def lexLe [DecidableEq α] (lt : α → α → Bool) : List α → List α → Bool
  | [], _ => true
  | _ :: _, [] => false
  | a :: as, b :: bs => lt a b || (decide (a = b) && lexLe lt as bs)

/-- `a` put before the first element that it may precede. -/
def insertSorted (a : α) : List α → List α
  | [] => [a]
  | b :: bs => if le a b then a :: b :: bs else b :: insertSorted a bs

/-- The elements in the order of `le`, equal ones in the order of the list. -/
def stableSort : List α → List α
  | [] => []
  | a :: as => insertSorted le a (stableSort as)

theorem perm_insertSorted (a : α) (as : List α) : (insertSorted le a as).Perm (a :: as) := by
  induction as with
  | nil => exact .refl _
  | cons b bs ih =>
    unfold insertSorted
    split
    · exact .refl _
    · exact (ih.cons b).trans (.swap a b bs)

theorem perm_stableSort (as : List α) : (stableSort le as).Perm as := by
  induction as with
  | nil => exact .refl _
  | cons a as ih => exact (perm_insertSorted le a _).trans (ih.cons a)

theorem stableSort_of_pairwise {as : List α} (h : as.Pairwise fun a b => le a b = true) :
    stableSort le as = as := by
  induction as with
  | nil => rfl
  | cons a as ih =>
    rw [List.pairwise_cons] at h
    rw [stableSort, ih h.2]
    cases as with
    | nil => rfl
    | cons b bs => simp [insertSorted, h.1 b (by simp)]

@[simp] theorem length_stableSort (as : List α) : (stableSort le as).length = as.length :=
  (perm_stableSort le as).length_eq

end Stencil
