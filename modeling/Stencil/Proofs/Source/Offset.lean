import Mathlib.Data.List.Forall2
import Mathlib.Order.Bounds.Defs
import Stencil.Proofs.Source.Alignment

/-!
# The column that assignment signs are aligned to

The text before a sign ends where it ended before, so wherever lines are aligned to, a sign stands
right behind one space or at the wished column, whichever is further right
(`alignedAt_alignLine_iff`). Hence the widest text before a sign decides: the column one space
behind it is the least one at which all signs can stand with a space before each
(`alignmentOffset_isLeast`).
-/

namespace Stencil.Source

open Text

/-- The line has an assignment sign. -/
def HasSign (line : Line) : Prop :=
  ∃ before blanks value, Assigns before blanks value ∧ line = before ++ (blanks ++ '=' :: value)

theorem splitAssignment?_eq_none_iff {line : Line} :
    splitAssignment? line = none ↔ ¬HasSign line := by
  constructor
  · rintro hnone ⟨before, blanks, value, h, rfl⟩
    rw [h.splitAssignment?] at hnone
    cases hnone
  · intro hsign
    rw [Option.eq_none_iff_forall_ne_some]
    rintro ⟨before, assignment⟩ hsplit
    obtain ⟨blanks, value, hline, -, h⟩ := exists_assigns hsplit
    exact hsign ⟨before, blanks, value, h, hline⟩

/-- `out` is `line` with its assignment sign at the column and nothing but spaces, at least one,
between the sign and what was before it. A line without an assignment sign is unchanged. -/
inductive AlignedAt (column : Nat) : Line → Line → Prop
  | sign {before blanks value : Line} {spaces : Nat} (h : Assigns before blanks value)
      (hcolumn : width (before ++ List.replicate (spaces + 1) ' ') = column) :
      AlignedAt column (before ++ (blanks ++ '=' :: value))
        (before ++ (List.replicate (spaces + 1) ' ' ++ '=' :: value))
  | other {line : Line} (h : ¬HasSign line) : AlignedAt column line line

/-! ## One line -/

theorem width_append_replicate_space (text : List Char) (n : Nat) :
    width (text ++ List.replicate n ' ') = width text + n := by
  rw [width_append, widthFrom_replicate_space]

theorem AlignedAt.eq_append {column : Nat} {line out before assignment : Line}
    (h : AlignedAt column line out) (hsplit : splitAssignment? line = some (before, assignment)) :
    ∃ spaces, width before + (spaces + 1) = column ∧
      out = before ++ (List.replicate (spaces + 1) ' ' ++ assignment) := by
  cases h with
  | sign h hcolumn =>
    rw [h.splitAssignment?] at hsplit
    cases hsplit
    exact ⟨_, (width_append_replicate_space _ _).symm.trans hcolumn, rfl⟩
  | other h =>
    rw [splitAssignment?_eq_none_iff.2 h] at hsplit
    cases hsplit

theorem alignLine_of_split {line before assignment : Line}
    (hsplit : splitAssignment? line = some (before, assignment)) (offset : Nat) :
    alignLine offset line =
      before ++ (List.replicate (offset - (width before + 1) + 1) ' ' ++ assignment) := by
  have hmax : max (offset - width before) 1 = offset - (width before + 1) + 1 := by omega
  rw [alignLine, hsplit]
  simp only [hmax, List.append_assoc]

/-- A sign is put at the column that is wished, or one space behind what precedes it. -/
theorem alignedAt_alignLine_iff {column offset : Nat} {line : Line} :
    AlignedAt column line (alignLine offset line) ↔
      ∀ parts, splitAssignment? line = some parts → column = max offset (width parts.1 + 1) := by
  constructor
  · rintro h ⟨before, assignment⟩ hsplit
    obtain ⟨spaces, hcolumn, hout⟩ := h.eq_append hsplit
    rw [alignLine_of_split hsplit, List.append_cancel_left_eq, List.append_cancel_right_eq] at hout
    have hspaces := congrArg List.length hout
    rw [List.length_replicate, List.length_replicate] at hspaces
    dsimp only
    omega
  · intro h
    cases hsplit : splitAssignment? line with
    | none =>
      rw [alignLine, hsplit]
      exact .other (splitAssignment?_eq_none_iff.1 hsplit)
    | some parts =>
      obtain ⟨before, assignment⟩ := parts
      obtain ⟨blanks, value, hline, rfl, hassigns⟩ := exists_assigns hsplit
      have hcolumn := h _ hsplit
      rw [alignLine_of_split hsplit, hline]
      refine .sign hassigns ?_
      rw [width_append_replicate_space]
      dsimp only at hcolumn
      omega

/-! ## All lines -/

variable {lines : List Line} {column offset : Nat}

theorem forall₂_alignedAt_alignTo_iff :
    List.Forall₂ (AlignedAt column) lines (alignTo offset lines) ↔
      ∀ line ∈ lines, ∀ parts, splitAssignment? line = some parts →
        column = max offset (width parts.1 + 1) := by
  rw [alignTo, List.forall₂_map_right_iff, List.forall₂_same]
  exact forall₂_congr fun _ _ => alignedAt_alignLine_iff

theorem alignmentOffset?_eq_some_iff :
    alignmentOffset? lines = some offset ↔
      (∃ line ∈ lines, ∃ parts, splitAssignment? line = some parts ∧
        width parts.1 + 1 = offset) ∧
      ∀ line ∈ lines, ∀ parts, splitAssignment? line = some parts →
        width parts.1 + 1 ≤ offset := by
  have hmem : ∀ {n : Nat},
      (n ∈ lines.filterMap fun line => (splitAssignment? line).map fun parts => width parts.1 + 1) ↔
        ∃ line ∈ lines, ∃ parts, splitAssignment? line = some parts ∧ width parts.1 + 1 = n := by
    simp only [List.mem_filterMap, Option.map_eq_some_iff, implies_true]
  rw [alignmentOffset?, List.max?_eq_some_iff, hmem]
  refine and_congr_right fun _ => ⟨fun h line hline parts hsplit => ?_, fun h n hn => ?_⟩
  · exact h _ (hmem.2 ⟨line, hline, parts, hsplit, rfl⟩)
  · obtain ⟨line, hline, parts, hsplit, rfl⟩ := hmem.1 hn
    exact h line hline parts hsplit

/-- Lines that are aligned to the offset have their signs there. -/
theorem alignedAt_alignTo_offset (h : alignmentOffset? lines = some offset) :
    List.Forall₂ (AlignedAt offset) lines (alignTo offset lines) := by
  obtain ⟨-, hle⟩ := alignmentOffset?_eq_some_iff.1 h
  rw [forall₂_alignedAt_alignTo_iff]
  intro line hline parts hsplit
  exact (max_eq_left (hle line hline parts hsplit)).symm

/-- If aligning puts all signs into one column, it is the offset or a column to the right of it. -/
theorem eq_max_of_alignedAt (h : alignmentOffset? lines = some offset) {other : Nat}
    (haligned : List.Forall₂ (AlignedAt column) lines (alignTo other lines)) :
    column = max other offset := by
  obtain ⟨⟨line, hline, parts, hsplit, rfl⟩, -⟩ := alignmentOffset?_eq_some_iff.1 h
  exact forall₂_alignedAt_alignTo_iff.1 haligned line hline parts hsplit

/-- Aligning that puts all signs into one column is aligning to this column. -/
theorem alignTo_eq_of_alignedAt {other : Nat}
    (haligned : List.Forall₂ (AlignedAt column) lines (alignTo other lines)) :
    alignTo other lines = alignTo column lines := by
  rw [alignTo, alignTo, List.map_inj_left]
  intro line hline
  cases hsplit : splitAssignment? line with
  | none => rw [alignLine, alignLine, hsplit]
  | some parts =>
    obtain ⟨before, assignment⟩ := parts
    have hcolumn : column = max other (width before + 1) :=
      forall₂_alignedAt_alignTo_iff.1 haligned line hline _ hsplit
    have hspaces : other - (width before + 1) = column - (width before + 1) := by omega
    rw [alignLine_of_split hsplit, alignLine_of_split hsplit, hspaces]

/-- Lines stay as they are wherever they are aligned to only if they hold no assignment sign. -/
theorem offset_eq_none_of_alignTo (h : ∀ offset, alignTo offset lines = lines) :
    alignmentOffset? lines = none := by
  cases hoffset : alignmentOffset? lines with
  | none => rfl
  | some offset =>
    have haligned := alignedAt_alignTo_offset hoffset
    have hfurther : alignTo offset lines = alignTo (offset + 1) lines :=
      (h offset).trans (h (offset + 1)).symm
    rw [hfurther] at haligned
    have := eq_max_of_alignedAt hoffset haligned
    omega

/-- The offset of lines is the least column at which aligning puts all their signs, each behind a
space. If aligning anywhere else puts them into one column, it is this one or one further right, and
the lines are those that aligning to this column gives. Where lines were aligned before plays no
role. There is no offset exactly if aligning changes no line. -/
theorem alignmentOffset_isLeast (lines : List Line) :
    (∀ offset, alignmentOffset? lines = some offset →
      List.Forall₂ (AlignedAt offset) lines (alignTo offset lines) ∧
      alignmentOffset? (alignTo offset lines) = some offset ∧
      IsLeast {column | List.Forall₂ (AlignedAt column) lines (alignTo column lines)} offset ∧
      ∀ column other, List.Forall₂ (AlignedAt column) lines (alignTo other lines) →
        column = max other offset ∧ alignTo other lines = alignTo column lines) ∧
    (∀ first second, alignTo second (alignTo first lines) = alignTo second lines) ∧
    (alignmentOffset? lines = none ↔ ∀ offset, alignTo offset lines = lines) := by
  refine ⟨fun offset h => ?_, fun first second => alignTo_alignTo first second lines,
    alignTo_of_offset_eq_none, offset_eq_none_of_alignTo⟩
  have haligned := alignedAt_alignTo_offset h
  refine ⟨haligned, (alignmentOffset?_alignTo offset lines).trans h, ⟨haligned, ?_⟩,
    fun column other hother => ⟨eq_max_of_alignedAt h hother, alignTo_eq_of_alignedAt hother⟩⟩
  intro column hcolumn
  have := eq_max_of_alignedAt h hcolumn
  omega

/-- Two assignments behind texts of different widths, an array that is not aligned and a declaration
without a value. -/
def assignments : List Line :=
  ["\tint a = 0;", "\tsize_t length  = 0;", "\tuint8_t data[] = \x7b 0 \x7d;",
    "\tchar c;"].map String.toList

/-- The wider text decides: the sign behind it stands at column 22, as does the other one. -/
theorem alignmentOffset_isLeast_assignments :
    alignmentOffset? assignments = some 22 ∧
      List.Forall₂ (AlignedAt 22) assignments (alignTo 22 assignments) ∧
      alignmentOffset? (alignTo 22 assignments) = some 22 ∧
      IsLeast {column | List.Forall₂ (AlignedAt column) assignments (alignTo column assignments)}
        22 ∧
      alignTo 22 assignments =
        ["\tint a         = 0;", "\tsize_t length = 0;", "\tuint8_t data[] = \x7b 0 \x7d;",
          "\tchar c;"].map String.toList := by
  have hoffset : alignmentOffset? assignments = some 22 := by decide
  obtain ⟨haligned, hagain, hleast, -⟩ := (alignmentOffset_isLeast assignments).1 22 hoffset
  exact ⟨hoffset, haligned, hagain, hleast, by decide⟩

end Stencil.Source
