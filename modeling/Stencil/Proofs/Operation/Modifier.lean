import Mathlib.Data.Char
import Mathlib.Data.List.Lex
import Stencil.Operation.Modifier
import Stencil.Proofs.Sorting
import Stencil.Proofs.Text.Lines

/-!
# Sorted lines

The lines of a text are its pieces between line feeds, but for an empty piece at the end. Sorting
them gives the one text that has the same lines in order and ends in a line feed if the text does
(`apply_sortLines_canonical`). That the result can be cut into its lines again is what carries this:
the last of the sorted lines is empty only if all are (`isClosed_sortedText`), so the empty piece at
the end can be told from a line.
-/

namespace Stencil

/-- Texts come in the order of words in a dictionary. -/
theorem lexLe_iff_le {as bs : List Char} :
    lexLe (fun a b => decide (a < b)) as bs = true ↔ as ≤ bs := by
  induction as generalizing bs with
  | nil => exact iff_of_true rfl (not_lt.1 fun h => by cases h)
  | cons a as ih =>
    cases bs with
    | nil => exact iff_of_false Bool.false_ne_true (not_le.2 .nil)
    | cons b bs =>
      have hlt : b :: bs < a :: as ↔ b < a ∨ b = a ∧ bs < as := List.cons_lt_cons_iff
      rw [lexLe, Bool.or_eq_true, Bool.and_eq_true, decide_eq_true_eq, decide_eq_true_eq, ih,
        ← not_lt, ← not_lt, hlt]
      rcases lt_trichotomy a b with h | rfl | h
      · simp [h, h.not_gt, h.ne']
      · simp
      · simp [h, h.not_gt, h.ne']

namespace Modifier

/-- Whether the last piece of a text between line feeds is empty. -/
def isClosed (text : List Char) : Bool :=
  (Text.cut '\n' text).getLast? = some []

/-- The lines of a text: its pieces between line feeds, an empty one at the end set aside. -/
def linesOf (text : List Char) : List (List Char) :=
  if isClosed text then (Text.cut '\n' text).dropLast else Text.cut '\n' text

variable {text text' : List Char}

theorem cut_eq (text : List Char) :
    Text.cut '\n' text = if isClosed text then linesOf text ++ [[]] else linesOf text := by
  unfold linesOf
  split
  · next h => exact (List.dropLast_append_getLast? _ (of_decide_eq_true h)).symm
  · rfl

/-- A text is told by its lines and by whether its last piece is empty. -/
theorem eq_of_linesOf (hlines : linesOf text = linesOf text')
    (hclosed : isClosed text = isClosed text') : text = text' := by
  rw [← Text.join_cut '\n' text, ← Text.join_cut '\n' text', cut_eq, cut_eq, hlines, hclosed]

theorem not_mem_of_mem_linesOf : ∀ line ∈ linesOf text, '\n' ∉ line := by
  intro line hline
  have hcut : ∀ part ∈ Text.cut '\n' text, '\n' ∉ part := Text.not_mem_of_mem_cut
  refine hcut line ?_
  rw [cut_eq]
  split
  · exact List.mem_append_left _ hline
  · exact hline

theorem getLast?_eq_feed_iff :
    text.getLast? = some '\n' ↔ isClosed text = true ∧ linesOf text ≠ [] := by
  rw [Text.getLast?_eq_separator_iff, cut_eq]
  constructor
  · rintro ⟨parts, hcut, hne⟩
    have hclosed : isClosed text = true := by
      rw [isClosed, cut_eq, hcut]
      simp
    rw [hclosed, if_pos rfl] at hcut
    exact ⟨hclosed, List.append_cancel_right hcut ▸ hne⟩
  · rintro ⟨hclosed, hne⟩
    rw [hclosed, if_pos rfl]
    exact ⟨_, rfl, hne⟩

/-- A text without lines is empty. -/
theorem isClosed_of_linesOf_eq_nil (h : linesOf text = []) : isClosed text = true := by
  by_contra hclosed
  have hcut := cut_eq text
  rw [if_neg hclosed, h] at hcut
  exact Text.cut_ne_nil _ _ hcut

/-! ## Sorting the lines -/

theorem pairwise_sorted (lines : List (List Char)) : (sorted lines).Pairwise (· ≤ ·) := by
  refine (pairwise_stableSort ?_ ?_ lines).imp fun h => lexLe_iff_le.1 h
  · intro a b c
    simp only [lexLe_iff_le]
    exact le_trans
  · intro a b
    simp only [lexLe_iff_le]
    exact le_total a b

theorem perm_sorted (lines : List (List Char)) : (sorted lines).Perm lines :=
  perm_stableSort _ lines

/-- The order leaves no choice. -/
theorem eq_sorted_iff {lines lines' : List (List Char)} :
    lines' = sorted lines ↔ lines'.Perm lines ∧ lines'.Pairwise (· ≤ ·) := by
  constructor
  · rintro rfl
    exact ⟨perm_sorted lines, pairwise_sorted lines⟩
  · rintro ⟨hperm, hpairwise⟩
    exact (hperm.trans (perm_sorted lines).symm).eq_of_pairwise (fun _ _ _ _ => le_antisymm)
      hpairwise (pairwise_sorted lines)

theorem sorted_eq_iff {lines lines' : List (List Char)} :
    sorted lines = sorted lines' ↔ lines.Perm lines' := by
  rw [eq_sorted_iff]
  constructor
  · rintro ⟨hperm, -⟩
    exact (perm_sorted lines).symm.trans hperm
  · intro h
    exact ⟨(perm_sorted lines).trans h, pairwise_sorted lines⟩

/-- If the last of the sorted lines is empty, they all are. -/
theorem eq_nil_of_getLast?_sorted {lines : List (List Char)}
    (h : (sorted lines).getLast? = some []) : ∀ line ∈ lines, line = [] := by
  intro line hline
  obtain ⟨before, hbefore⟩ := List.getLast?_eq_some_iff.1 h
  have hpairwise := pairwise_sorted lines
  have hmem := (perm_sorted lines).mem_iff.2 hline
  rw [hbefore, List.pairwise_append] at hpairwise
  rw [hbefore, List.mem_append, List.mem_singleton] at hmem
  rcases hmem with hmem | rfl
  · have hle : line ≤ [] := hpairwise.2.2 line hmem [] (List.mem_singleton_self _)
    cases line with
    | nil => rfl
    | cons c line => exact absurd hle (not_le.2 .nil)
  · rfl

theorem cut_sortedText (text : List Char) :
    Text.cut '\n' (sortedText text) =
      if isClosed text then sorted (linesOf text) ++ [[]] else sorted (linesOf text) := by
  have hfeed : ∀ line ∈ sorted (linesOf text), '\n' ∉ line := fun line hline =>
    not_mem_of_mem_linesOf line ((perm_sorted _).mem_iff.1 hline)
  have hpieces : sortedText text = Text.join ['\n']
      (if isClosed text then sorted (linesOf text) ++ [[]] else sorted (linesOf text)) := by
    unfold sortedText linesOf isClosed
    by_cases h : (Text.cut '\n' text).getLast? = some []
    · simp only [h, if_true, decide_true]
    · simp only [h, if_false, decide_false, Bool.false_eq_true]
  rw [hpieces]
  split
  · refine Text.cut_join (List.append_ne_nil_of_right_ne_nil _ (List.cons_ne_nil _ _)) ?_
    rw [List.forall_mem_append, List.forall_mem_singleton]
    exact ⟨hfeed, List.not_mem_nil⟩
  · next hclosed =>
    refine Text.cut_join (fun hnil => hclosed (isClosed_of_linesOf_eq_nil ?_)) hfeed
    exact List.perm_nil.1 (hnil ▸ (perm_sorted _).symm)

theorem isClosed_sortedText (text : List Char) : isClosed (sortedText text) = isClosed text := by
  rw [isClosed, cut_sortedText]
  cases hclosed : isClosed text with
  | true => simp
  | false =>
    -- The last piece of the text is a line then, and it is not empty.
    have hcut : Text.cut '\n' text = linesOf text := by
      rw [cut_eq, hclosed, if_neg Bool.false_ne_true]
    obtain ⟨line, hlast⟩ : ∃ line, (linesOf text).getLast? = some line := by
      rw [← hcut]
      exact ⟨_, List.getLast?_eq_some_getLast (Text.cut_ne_nil '\n' text)⟩
    rw [isClosed, hcut, hlast, decide_eq_false_iff_not] at hclosed
    rw [decide_eq_false_iff_not, if_neg Bool.false_ne_true]
    intro hempty
    exact hclosed (congrArg some
      (eq_nil_of_getLast?_sorted hempty line (List.mem_of_getLast? hlast)))

theorem linesOf_sortedText (text : List Char) :
    linesOf (sortedText text) = sorted (linesOf text) := by
  have hcut := cut_sortedText text
  rw [cut_eq, isClosed_sortedText] at hcut
  split at hcut
  · exact List.append_cancel_right hcut
  · exact hcut

/-! ## The sorted text -/

theorem sortedText_eq_iff :
    sortedText text = sortedText text' ↔
      (linesOf text).Perm (linesOf text') ∧ isClosed text = isClosed text' := by
  constructor
  · intro h
    rw [← sorted_eq_iff, ← linesOf_sortedText, ← linesOf_sortedText, ← isClosed_sortedText text,
      ← isClosed_sortedText text', h]
    exact ⟨rfl, rfl⟩
  · rintro ⟨hperm, hclosed⟩
    refine eq_of_linesOf ?_ ?_
    · rw [linesOf_sortedText, linesOf_sortedText, sorted_eq_iff]
      exact hperm
    · rw [isClosed_sortedText, isClosed_sortedText, hclosed]

theorem sortedText_sortedText (text : List Char) :
    sortedText (sortedText text) = sortedText text := by
  rw [sortedText_eq_iff, linesOf_sortedText, isClosed_sortedText]
  exact ⟨perm_sorted _, rfl⟩

/-- Texts with as many lines end in a line feed alike exactly if they are closed alike. -/
theorem isClosed_eq_iff (h : (linesOf text).Perm (linesOf text')) :
    isClosed text = isClosed text' ↔ (text.getLast? = some '\n' ↔ text'.getLast? = some '\n') := by
  rw [getLast?_eq_feed_iff, getLast?_eq_feed_iff, Bool.eq_iff_iff]
  by_cases hnil : linesOf text = []
  · have hnil' : linesOf text' = [] := List.perm_nil.1 (hnil ▸ h.symm)
    simp [hnil, hnil', isClosed_of_linesOf_eq_nil]
  · have hne : linesOf text' ≠ [] := fun hnil' => hnil (List.perm_nil.1 (hnil' ▸ h))
    simp [hnil, hne]

theorem eq_sortedText_iff :
    text' = sortedText text ↔
      (linesOf text').Perm (linesOf text) ∧ (linesOf text').Pairwise (· ≤ ·) ∧
        (text'.getLast? = some '\n' ↔ text.getLast? = some '\n') := by
  constructor
  · rintro rfl
    have hperm : (linesOf (sortedText text)).Perm (linesOf text) := by
      rw [linesOf_sortedText]
      exact perm_sorted _
    refine ⟨hperm, ?_, (isClosed_eq_iff hperm).1 (isClosed_sortedText text)⟩
    rw [linesOf_sortedText]
    exact pairwise_sorted _
  · rintro ⟨hperm, hpairwise, hlast⟩
    refine eq_of_linesOf ?_ ?_
    · rw [linesOf_sortedText, eq_sorted_iff]
      exact ⟨hperm, hpairwise⟩
    · rw [isClosed_sortedText]
      exact (isClosed_eq_iff hperm).2 hlast

theorem applyAll_sortedText (modifiers : List Modifier) (text : List Char) :
    applyAll modifiers (sortedText text) = sortedText text := by
  induction modifiers with
  | nil => rfl
  | cons modifier modifiers ih =>
    cases modifier with
    | sortLines =>
      calc applyAll (.sortLines :: modifiers) (sortedText text)
          = applyAll modifiers (sortedText (sortedText text)) := rfl
        _ = sortedText text := by rw [sortedText_sortedText, ih]

theorem applyAll_of_mem {modifiers : List Modifier} (h : .sortLines ∈ modifiers)
    (text : List Char) : applyAll modifiers text = sortedText text := by
  cases modifiers with
  | nil => cases h
  | cons modifier modifiers =>
    cases modifier with
    | sortLines => exact applyAll_sortedText modifiers text

/-- Sorting the lines of a text gives the one text that has the same lines in the order of their
characters, and that ends in a line feed exactly if the text does. It gives the same for two texts
exactly if these have the same lines, each as often, and the last pieces of both are empty or those
of neither. So it may be done any number of times, and be it that it is one of several modifiers. -/
theorem apply_sortLines_canonical :
    (∀ text result : List Char, result = apply .sortLines text ↔
      (linesOf result).Perm (linesOf text) ∧ (linesOf result).Pairwise (· ≤ ·) ∧
        (result.getLast? = some '\n' ↔ text.getLast? = some '\n')) ∧
    (∀ text text' : List Char, apply .sortLines text = apply .sortLines text' ↔
      (linesOf text).Perm (linesOf text') ∧ isClosed text = isClosed text') ∧
    (∀ text : List Char, apply .sortLines (apply .sortLines text) = apply .sortLines text) ∧
    ∀ (modifiers : List Modifier) (text : List Char), .sortLines ∈ modifiers →
      applyAll modifiers text = apply .sortLines text :=
  ⟨fun _ _ => eq_sortedText_iff, fun _ _ => sortedText_eq_iff, sortedText_sortedText,
    fun _ text h => applyAll_of_mem h text⟩

/-- An empty line comes first, and the empty piece at the end stays where it is. -/
theorem apply_sortLines_canonical_twice :
    let modifiers : List Modifier := [.sortLines, .sortLines]
    let text := ['b', '\n', '\n', 'a', '\n']
    .sortLines ∈ modifiers ∧ applyAll modifiers text = apply .sortLines text ∧
      apply .sortLines text = ['\n', 'a', '\n', 'b', '\n'] := by
  intro modifiers text
  have hmem : .sortLines ∈ modifiers := List.mem_cons_self
  exact ⟨hmem, apply_sortLines_canonical.2.2.2 modifiers text hmem, by decide⟩

end Modifier

end Stencil
