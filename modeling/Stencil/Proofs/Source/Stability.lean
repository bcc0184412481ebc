import Stencil.Proofs.Source.Body
import Stencil.Proofs.Source.Include
import Stencil.Proofs.Text.Lines

/-!
# When formatting twice is formatting once

A line that formatting changes may be of another kind afterwards, so that a second pass indents the
lines after it differently (`formatText_formatText_case_tab`). If every line keeps what layout reads
off it, a second pass changes nothing (`formatText_formatText`).
-/

namespace Stencil.Source

open Text

namespace Layout

/-! ## Two passes of layout -/

/-- A pass that follows another gives out the same lines. -/
theorem Follows.run_run {s t : Layout} (h : t.Follows s) (hs : s.inDeclarations = false)
    {lines : List Line} (hsteady : s.isSteady lines = true) :
    t.run (s.run lines) = s.run lines := by
  -- By the number of lines, as the declarations of a body are passed over in one go.
  induction hn : lines.length using Nat.strong_induction_on generalizing s t lines with
  | _ n ih =>
    subst hn
    cases lines with
    | nil =>
      have ht : t.inDeclarations = false := by
        rw [h.eq]
        exact hs
      rw [run, pending_of_not_inDeclarations hs, run, pending_of_not_inDeclarations ht]
    | cons line lines =>
      rw [isSteady, Bool.and_eq_true] at hsteady
      obtain ⟨out, hout, hagain, hfollows⟩ := h.step hs hsteady.1
      rw [run, hout, List.singleton_append, run, hagain, List.singleton_append, List.cons.injEq]
      refine ⟨rfl, ?_⟩
      have hlt : lines.length < (line :: lines).length := Nat.lt_succ_self _
      cases hbody : (s.step line).1.inDeclarations with
      | false => exact ih _ hlt hfollows hbody hsteady.2 rfl
      | true =>
        obtain ⟨hs', ht'⟩ := hfollows.body hbody
        rw [hs'] at hsteady ⊢
        rw [ht']
        refine run_run_bodyStart hsteady.2 fun inComment rest hle hrest => ?_
        have hself : (released inComment).Follows (released inComment) :=
          follows_of_phase (by simp) le_rfl le_rfl _ _
        exact ih _ (Nat.lt_of_le_of_lt hle hlt) hself rfl hrest rfl

/-- Layout leaves the lines that it gives out as they are. -/
theorem run_run {lines : List Line} (hsteady : isSteady {} lines = true) :
    run {} (run {} lines) = run {} lines := by
  have hself : Follows {} {} := follows_of_phase (by simp) le_rfl (Nat.zero_le 1) _ _
  exact hself.run_run rfl hsteady

end Layout

/-- Formatted lines are formatted for good, if the lines keep what layout reads off them. -/
theorem formatLines_formatLines {lines : List Line} (hsteady : Layout.isSteady {} lines = true) :
    formatLines (formatLines lines) = formatLines lines := by
  unfold formatLines
  rw [Layout.run_sortIncludes (Layout.run_run hsteady), sortIncludes_sortIncludes]

theorem length_formatLines (lines : List Line) : (formatLines lines).length = lines.length := by
  rw [formatLines, length_sortIncludes, Layout.length_run]

/-! ## An empty line at the end -/

theorem isDeclaration_nil : isDeclaration [] = false := by
  decide +kernel

theorem arrange_append_nil (run : List Line) : arrange (run ++ [[]]) = arrange run ++ [[]] := by
  have hle : ∀ line, sortDeclarations.order line [] = true :=
    fun line => order_of_not_isDeclaration line isDeclaration_nil
  rw [arrange, sortDeclarations, stableSort_append_singleton hle, align_append_nil]
  rfl

namespace Layout

theorem settle_append_nil (depth : Nat) (run : List Line) (held : List (LineKind × Line)) :
    settle depth run (held ++ [(.blank, [])]) = settle depth run held ++ [[]] := by
  have htail : ∀ run, settle depth run [(.blank, [])] = arrange run ++ [[]] := arrange_append_nil
  exact settle_append htail run held

/-- An empty line at the end of a text stays there. -/
theorem run_append_nil (s : Layout) (lines : List Line) :
    s.run (lines ++ [[]]) = s.run lines ++ [[]] := by
  induction lines generalizing s with
  | nil =>
    cases hcomment : s.inComment with
    | true =>
      have hkind : classify s.inComment [] = (.comment, true) := by
        rw [hcomment]
        rfl
      have hjoins : joinsRun .comment = false := rfl
      rw [List.nil_append, run_cons_of_not_joinsRun hkind hjoins, place_of_not_joinsRun hjoins,
        run, run, pending_flushed]
      rfl
    | false =>
      have hkind : classify s.inComment [] = (.blank, false) := by
        rw [hcomment]
        rfl
      cases hs : s.inDeclarations with
      | false =>
        simp only [List.nil_append, run, step_of_not_inDeclarations hs hkind,
          pending_of_not_inDeclarations hs]
        exact congrArg (_ :: ·)
          (pending_of_not_inDeclarations (s := { s with inComment := false }) hs)
      | true =>
        obtain ⟨held, hphase⟩ := exists_of_inDeclarations hs
        simp [run, step, hphase, hkind, endsDeclarations, pending, settle_append_nil]
  | cons line lines ih => rw [List.cons_append, run, ih, run, List.append_assoc]

end Layout

theorem formatLines_append_nil (lines : List Line) :
    formatLines (lines ++ [[]]) = formatLines lines ++ [[]] := by
  have hnil : isInclude [] = false := rfl
  rw [formatLines, Layout.run_append_nil, sortIncludes_append_cons hnil, sortIncludes_nil,
    formatLines]

/-! ## Formatted lines are lines -/

theorem isLine_normalize {line : Line} (h : '\n' ∉ line) (level : Nat) :
    IsLine (normalize level line) where
  not_mem_feed hmem := by
    rcases mem_of_mem_normalize hmem with hspace | htab | hline
    · cases hspace
    · cases htab
    · exact h hline
  no_return hlast := by
    rw [← trimEnd_normalize] at hlast
    exact absurd (not_isBlank_of_getLast?_trimEnd hlast) (by decide)

theorem isLine_alignLine {line : Line} (h : IsLine line) (offset : Nat) :
    IsLine (alignLine offset line) := by
  rcases alignLine_cases offset line with
    ⟨-, halign⟩ | ⟨before, blanks, spaces, value, -, -, -, hspaces, hline, halign⟩
  · rwa [halign]
  rw [halign]
  rw [hline] at h
  constructor
  · have hfeed := h.not_mem_feed
    simp only [List.mem_append, not_or] at hfeed ⊢
    refine ⟨hfeed.1, ?_, hfeed.2.2⟩
    rw [hspaces]
    exact fun hmem => absurd (List.eq_of_mem_replicate hmem) (by decide)
  · have hlast := h.no_return
    rwa [← List.append_assoc, List.getLast?_append_of_ne_nil _ (List.cons_ne_nil _ _)] at hlast ⊢

namespace Layout

variable {P : Line → Prop} (halign : ∀ line, P line → ∀ offset, P (alignLine offset line))

include halign

/-- What holds of normalized lines and of aligned lines holds of lines that were held back. -/
theorem forall_mem_settle {held : List (LineKind × Line)}
    (hheld : ∀ entry ∈ held, ∀ level, P (normalize level entry.2)) {run : List Line}
    (hrun : ∀ line ∈ run, P line) (depth : Nat) : ∀ line ∈ settle depth run held, P line := by
  have harrange : ∀ run, (∀ line ∈ run, P line) → ∀ line ∈ arrange run, P line := by
    intro run hrun line hline
    obtain ⟨u, hu, rfl | ⟨offset, rfl⟩⟩ := exists_of_mem_arrange hline
    · exact hrun _ hu
    · exact halign u (hrun u hu) offset
  induction held generalizing run with
  | nil => exact harrange run hrun
  | cons entry held ih =>
    obtain ⟨kind, line⟩ := entry
    rw [List.forall_mem_cons] at hheld
    cases hjoins : joinsRun kind with
    | true =>
      rw [settle_of_joinsRun hjoins]
      refine ih hheld.2 ?_
      rw [List.forall_mem_append, List.forall_mem_singleton]
      exact ⟨hrun, hheld.1 depth⟩
    | false =>
      rw [settle_of_not_joinsRun hjoins, List.forall_mem_append, List.forall_mem_cons]
      exact ⟨harrange run hrun, hheld.1 _, ih hheld.2 (by simp)⟩

/-- What holds of normalized lines and of aligned lines holds of all that layout gives out. -/
theorem forall_mem_run {s : Layout}
    (hheld : ∀ entry ∈ s.heldLines, ∀ level, P (normalize level entry.2)) {lines : List Line}
    (hlines : ∀ line ∈ lines, ∀ level, P (normalize level line)) :
    ∀ line ∈ s.run lines, P line := by
  induction lines generalizing s with
  | nil =>
    rw [run, pending_eq]
    exact forall_mem_settle halign hheld (by simp) s.depth
  | cons line lines ih =>
    rw [List.forall_mem_cons] at hlines
    rw [run, List.forall_mem_append]
    rcases step_cases s line with ⟨-, hheld', hout⟩ | ⟨-, hheld', level, hout⟩
    · rw [hout]
      refine ⟨by simp, ih ?_ hlines.2⟩
      rw [hheld', List.forall_mem_append, List.forall_mem_singleton]
      exact ⟨hheld, hlines.1⟩
    · rw [hout, List.forall_mem_append, List.forall_mem_singleton, pending_eq]
      refine ⟨⟨forall_mem_settle halign hheld (by simp) s.depth, hlines.1 level⟩, ih ?_ hlines.2⟩
      rw [hheld']
      simp

end Layout

/-- The formatted lines of a text are read back from the text that they make. -/
theorem isLine_of_mem_formatLines {lines : List Line} (h : ∀ line ∈ lines, '\n' ∉ line) :
    ∀ line ∈ formatLines lines, IsLine line := by
  intro line hline
  rw [formatLines, (perm_sortIncludes _).mem_iff] at hline
  refine Layout.forall_mem_run (s := {}) (fun _ => isLine_alignLine) ?_
    (fun line hline => isLine_normalize (h line hline)) line hline
  simp [Layout.heldLines]

/-! ## Texts -/

theorem isLineEnd_lineEnd (text : List Char) : IsLineEnd (lineEnd text) := by
  fun_induction lineEnd text with
  | case1 => exact .inl rfl
  | case2 => exact .inr rfl
  | case3 => exact .inl rfl
  | case4 _ _ _ _ ih => exact ih

theorem lineEnd_cons_of_ne {c : Char} {cs : List Char} (hfeed : c ≠ '\n')
    (hreturn : c = '\r' → cs.head? ≠ some '\n') : lineEnd (c :: cs) = lineEnd cs := by
  refine lineEnd.eq_4 c cs (fun rest hc hcs => ?_) hfeed
  rw [hcs] at hreturn
  exact hreturn hc rfl

/-- The line end of a text is that of its first line. -/
theorem lineEnd_append {line sep : List Char} (h : IsLine line) (hsep : IsLineEnd sep)
    (text : List Char) : lineEnd (line ++ (sep ++ text)) = sep := by
  induction line with
  | nil => rcases hsep with rfl | rfl <;> rfl
  | cons c line ih =>
    have hreturn := fun hc : c = '\r' => h.head?_ne_feed hc (sep ++ text)
    rw [List.cons_append, lineEnd_cons_of_ne h.ne_feed hreturn, ih h.of_cons]

section join

variable {sep : List Char} {lines : List Line} (hsep : IsLineEnd sep)

include hsep

theorem getLast?_lineEnd : sep.getLast? = some '\n' := by
  rcases hsep with rfl | rfl <;> rfl

theorem lineEnd_join_append (hne : lines ≠ []) (hlines : ∀ line ∈ lines, IsLine line)
    (text : List Char) : lineEnd (join sep lines ++ (sep ++ text)) = sep := by
  cases lines with
  | nil => exact absurd rfl hne
  | cons line lines =>
    have hline := hlines line List.mem_cons_self
    by_cases hnil : lines = []
    · subst hnil
      exact lineEnd_append hline hsep text
    · rw [join_cons _ _ hnil, List.append_assoc, List.append_assoc]
      exact lineEnd_append hline hsep _

variable (hlines : ∀ line ∈ lines, IsLine line) (hfixed : formatLines lines = lines)

include hlines hfixed

/-- A text that ends in a line end stays as it is if its lines do. -/
theorem formatChars_join_append (hne : lines ≠ []) :
    formatChars (join sep lines ++ sep) = join sep lines ++ sep := by
  have hlast : (join sep lines ++ sep).getLast? = some '\n' := by
    rw [List.getLast?_append, getLast?_lineEnd hsep, Option.some_or]
  have hend := lineEnd_join_append hsep hne hlines []
  have hread := lines_join_append hsep hne hlines []
  rw [List.append_nil] at hend hread
  rw [formatChars, hlast, if_pos rfl, hend, hread, Text.lines, List.append_nil, hfixed]

/-- A text that ends in the middle of a line stays as it is if its lines do. -/
theorem formatChars_join {last : Line} (hlast : lines.getLast? = some last) (hne : last ≠ []) :
    formatChars (join sep lines) = join sep lines := by
  obtain ⟨front, rfl⟩ := List.getLast?_eq_some_iff.1 hlast
  have hlastline := hlines last (by simp)
  have hfeed : last.getLast? ≠ some '\n' :=
    fun h => hlastline.not_mem_feed (List.mem_of_getLast? h)
  rw [formatChars, lines_join hsep hlines hne, hfixed]
  by_cases hfront : front = []
  · subst hfront
    rw [List.nil_append, join, join, if_neg hfeed, List.append_nil]
  · rw [List.forall_mem_append] at hlines
    have htext := join_append_singleton sep last hfront
    have hend : (join sep front ++ (sep ++ last)).getLast? ≠ some '\n' := by
      rwa [List.getLast?_append_of_ne_nil _ (by simp [hne]), List.getLast?_append_of_ne_nil _ hne]
    rw [htext, lineEnd_join_append hsep hfront hlines.1, htext, if_neg hend, List.append_nil]

end join

/-- A formatted text is formatted for good, if its lines keep what layout reads off them. -/
theorem formatChars_formatChars {text : List Char}
    (hsteady : Layout.isSteady {} (Text.lines text) = true) :
    formatChars (formatChars text) = formatChars text := by
  have hsep := isLineEnd_lineEnd text
  have hlines := isLine_of_mem_formatLines (not_mem_feed_of_mem_lines text)
  have hfixed := formatLines_formatLines hsteady
  have hlength := length_formatLines (Text.lines text)
  rw [show formatChars text = join (lineEnd text) (formatLines (Text.lines text)) ++
    (if text.getLast? = some '\n' then lineEnd text else []) from rfl]
  generalize lineEnd text = sep at *
  generalize formatLines (Text.lines text) = out at *
  split
  · next hend =>
    have hne : out ≠ [] := by
      rintro rfl
      have hnil := List.eq_nil_of_length_eq_zero hlength.symm
      refine lines_ne_nil ?_ hnil
      rintro rfl
      cases hend
    exact formatChars_join_append hsep hlines hfixed hne
  · rw [List.append_nil]
    cases hlast : out.getLast? with
    | none =>
      rw [List.getLast?_eq_none_iff.1 hlast]
      rfl
    | some last =>
      by_cases hne : last = []
      · -- An empty last line is no line of the text that it makes.
        obtain ⟨front, rfl⟩ := List.getLast?_eq_some_iff.1 hlast
        subst hne
        have hfront : formatLines front = front := by
          rw [formatLines_append_nil] at hfixed
          exact List.append_cancel_right hfixed
        by_cases hnil : front = []
        · subst hnil
          rfl
        · rw [List.forall_mem_append] at hlines
          rw [join_append_singleton sep [] hnil, List.append_nil]
          exact formatChars_join_append hsep hlines.1 hfront hnil
      · exact formatChars_join hsep hlines hfixed hlast hne

theorem formatText_formatText {text : String}
    (hsteady : Layout.isSteady {} (Text.lines text.toList) = true) :
    formatText (formatText text) = formatText text := by
  rw [formatText, formatText, String.toList_ofList, formatChars_formatChars hsteady]

/-- Formatting twice is formatting once, of a text and of a list of lines, if every line keeps what
layout reads off it. -/
theorem format_idempotent (text : String) (lines : List Line) :
    (Layout.isSteady {} (Text.lines text.toList) = true →
      formatText (formatText text) = formatText text) ∧
    (Layout.isSteady {} lines = true →
      formatLines (formatLines lines) = formatLines lines) :=
  ⟨formatText_formatText, formatLines_formatLines⟩

/-- A function with declarations and a case label in a block, and a block of includes. -/
theorem format_idempotent_function :
    formatText (formatText "f()\n\x7b\nint b = 1;\nchar *p;\nx();\n\x7b\ncase 1:\ny;\n\x7d\n\x7d") =
        formatText "f()\n\x7b\nint b = 1;\nchar *p;\nx();\n\x7b\ncase 1:\ny;\n\x7d\n\x7d" ∧
      formatLines (formatLines ["#include <b.h>".toList, "#include \"a.h\"".toList]) =
        formatLines ["#include <b.h>".toList, "#include \"a.h\"".toList] :=
  have h := format_idempotent
    "f()\n\x7b\nint b = 1;\nchar *p;\nx();\n\x7b\ncase 1:\ny;\n\x7d\n\x7d"
    ["#include <b.h>".toList, "#include \"a.h\"".toList]
  ⟨h.1 (by decide +kernel), h.2 (by decide +kernel)⟩

/-- A tab behind `case` makes the line no label, but the spaces it becomes do: the line after it is
indented under the label by the second pass only. -/
theorem formatText_formatText_case_tab :
    formatText "case\t1:\nx\n" = "case        1:\nx\n" ∧
      formatText (formatText "case\t1:\nx\n") = "case        1:\n\tx\n" := by
  decide

end Stencil.Source
