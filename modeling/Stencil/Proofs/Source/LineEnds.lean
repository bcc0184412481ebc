import Mathlib.Data.List.Chain
import Stencil.Proofs.Source.Stability

/-!
# Line ends of formatted texts

A formatted text is parts without line feeds, joined by the line end of the text
(`formatChars_eq_join`). There are as many parts as the line feeds of the text cut it into, so line
feeds are neither lost nor gained, and all of them are written alike
(`isChain_feedsBehind_join`). The parts are the same if the text has the other line ends, so these
change nothing but the line ends of the formatted text (`formatChars_withReturns`).
-/

namespace Stencil.Text

/-- The text with every line feed written as a carriage return and a line feed. -/
def withReturns (text : List Char) : List Char :=
  text.flatMap fun c => if c = '\n' then ['\r', '\n'] else [c]

/-- The first line feed of the text stands right behind a carriage return. -/
def BreaksWithReturn (text : List Char) : Prop :=
  ∃ front rest, text = front ++ '\r' :: '\n' :: rest ∧ '\n' ∉ front

/-! ## Counting line feeds -/

/-- Whether a text ends in a character that is no line feed, as a number. -/
def openEnds (text : List Char) : Nat :=
  if text.getLast?.any (· ≠ '\n') then 1 else 0

theorem openEnds_cons (c : Char) {text : List Char} (h : text ≠ []) :
    openEnds (c :: text) = openEnds text := by
  rw [openEnds, List.getLast?_cons_of_ne_nil h, openEnds]

theorem openEnds_feed_cons (text : List Char) : openEnds ('\n' :: text) = openEnds text := by
  cases text with
  | nil => rfl
  | cons c text => exact openEnds_cons _ (List.cons_ne_nil c text)

/-- Every line feed ends a line, and what follows the last one is a line if it is not empty. -/
theorem length_lines (text : List Char) :
    (lines text).length = text.count '\n' + openEnds text := by
  fun_induction lines text with
  | case1 => rfl
  | case2 cs ih =>
    rw [List.length_cons, ih, List.count_cons_self, openEnds_feed_cons]
    omega
  | case3 cs ih =>
    rw [List.length_cons, ih, openEnds_cons _ (List.cons_ne_nil _ _), openEnds_feed_cons,
      List.count_cons_of_ne (by decide), List.count_cons_self]
    omega
  | case4 c cs hfeed _ hlines _ =>
    obtain rfl : cs = [] := by
      by_contra hne
      exact lines_ne_nil hne hlines
    have hopen : openEnds [c] = 1 := if_pos (by simpa using hfeed)
    rw [List.count_cons_of_ne hfeed, hopen]
    rfl
  | case5 c cs hfeed _ l ls hlines ih =>
    have hne : cs ≠ [] := by
      rintro rfl
      cases hlines
    rw [openEnds_cons _ hne, List.count_cons_of_ne hfeed, ← ih, hlines]
    rfl

section join

variable {sep : List Char} {parts : List (List Char)}

/-- There is a line end between each two of the parts. -/
theorem count_feed_join (hsep : IsLineEnd sep) (h : ∀ part ∈ parts, '\n' ∉ part) :
    (join sep parts).count '\n' = parts.length - 1 := by
  have hcount : sep.count '\n' = 1 := by
    rcases hsep with rfl | rfl <;> rfl
  induction parts with
  | nil => rfl
  | cons part parts ih =>
    rw [List.forall_mem_cons] at h
    by_cases hparts : parts = []
    · subst hparts
      exact List.count_eq_zero_of_not_mem h.1
    · have hpos := List.length_pos_of_ne_nil hparts
      rw [join_cons _ _ hparts, List.count_append, List.count_append, hcount, ih h.2,
        List.count_eq_zero_of_not_mem h.1, List.length_cons]
      omega

/-! ## What stands before line feeds -/

/-- If `d` is a line feed, the character `c` before it is a carriage return or not, as `returns`
tells. -/
def FeedsBehind (returns : Prop) (c d : Char) : Prop :=
  d = '\n' → (c = '\r' ↔ returns)

theorem feedsBehind_of_ne {returns : Prop} (c : Char) {d : Char} (hd : d ≠ '\n') :
    FeedsBehind returns c d :=
  fun h => absurd h hd

/-- The line feed of a line end stands behind what the line end says. -/
theorem isChain_feedsBehind_append (hsep : IsLineEnd sep) {c : Char} {part text : List Char}
    (hpart : '\n' ∉ part) (hlast : (c :: part).getLast? ≠ some '\r')
    (htext : ('\n' :: text).IsChain (FeedsBehind (sep = ['\r', '\n']))) :
    (c :: (part ++ (sep ++ text))).IsChain (FeedsBehind (sep = ['\r', '\n'])) := by
  induction part generalizing c with
  | nil =>
    have hc : c ≠ '\r' := by
      rintro rfl
      exact hlast rfl
    rcases hsep with rfl | rfl
    · exact .cons_cons (fun _ => iff_of_false hc (by decide)) htext
    · exact .cons_cons (feedsBehind_of_ne c (by decide)) (.cons_cons (fun _ => by simp) htext)
  | cons d part ih =>
    rw [List.mem_cons, not_or] at hpart
    rw [List.getLast?_cons_of_ne_nil (List.cons_ne_nil d part)] at hlast
    exact .cons_cons (feedsBehind_of_ne c (Ne.symm hpart.1)) (ih hpart.2 hlast)

theorem isChain_feedsBehind_of_not_mem {returns : Prop} (c : Char) {part : List Char}
    (h : '\n' ∉ part) : (c :: part).IsChain (FeedsBehind returns) := by
  induction part generalizing c with
  | nil => exact .singleton c
  | cons d part ih =>
    rw [List.mem_cons, not_or] at h
    exact .cons_cons (feedsBehind_of_ne c (Ne.symm h.1)) (ih d h.2)

theorem IsLine.getLast?_feed_cons {line : List Char} (h : IsLine line) :
    ('\n' :: line).getLast? ≠ some '\r' := by
  by_cases hline : line = []
  · subst hline
    decide
  · rw [List.getLast?_cons_of_ne_nil hline]
    exact h.no_return

/-- The line feeds of joined lines are those of the line ends. -/
theorem isChain_feedsBehind_join (hsep : IsLineEnd sep) (h : ∀ part ∈ parts, IsLine part) :
    ('\n' :: join sep parts).IsChain (FeedsBehind (sep = ['\r', '\n'])) := by
  induction parts with
  | nil => exact .singleton _
  | cons part parts ih =>
    rw [List.forall_mem_cons] at h
    by_cases hparts : parts = []
    · subst hparts
      exact isChain_feedsBehind_of_not_mem _ h.1.not_mem_feed
    · rw [join_cons _ _ hparts]
      exact isChain_feedsBehind_append hsep h.1.not_mem_feed h.1.getLast?_feed_cons (ih h.2)

theorem getLast?_eq_return_iff {returns : Prop} {text front rest : List Char}
    (h : ('\n' :: text).IsChain (FeedsBehind returns)) (htext : text = front ++ '\n' :: rest) :
    front.getLast? = some '\r' ↔ returns := by
  rw [htext, ← List.cons_append, List.isChain_append] at h
  obtain ⟨-, -, hbehind⟩ := h
  rw [List.getLast?_cons] at hbehind
  cases hlast : front.getLast? with
  | none =>
    have hfeed : '\n' = '\r' ↔ returns := hbehind _ (by rw [hlast]; rfl) '\n' rfl rfl
    exact iff_of_false (by simp) (hfeed.not.1 (by decide))
  | some c =>
    have hc : c = '\r' ↔ returns := hbehind _ (by rw [hlast]; rfl) '\n' rfl rfl
    rw [Option.some.injEq, hc]

end join

/-! ## The other line end -/

theorem withReturns_append (left right : List Char) :
    withReturns (left ++ right) = withReturns left ++ withReturns right :=
  List.flatMap_append

theorem withReturns_cons_of_ne {c : Char} (hc : c ≠ '\n') (text : List Char) :
    withReturns (c :: text) = c :: withReturns text := by
  rw [withReturns, List.flatMap_cons, if_neg hc]
  rfl

theorem withReturns_of_not_mem {text : List Char} (h : '\n' ∉ text) : withReturns text = text := by
  induction text with
  | nil => rfl
  | cons c text ih =>
    rw [List.mem_cons, not_or] at h
    rw [withReturns_cons_of_ne (Ne.symm h.1), ih h.2]

theorem withReturns_join {parts : List (List Char)} (h : ∀ part ∈ parts, '\n' ∉ part) :
    withReturns (join ['\n'] parts) = join ['\r', '\n'] parts := by
  induction parts with
  | nil => rfl
  | cons part parts ih =>
    rw [List.forall_mem_cons] at h
    by_cases hparts : parts = []
    · subst hparts
      exact withReturns_of_not_mem h.1
    · rw [join_cons _ _ hparts, join_cons _ _ hparts, withReturns_append, withReturns_append,
        withReturns_of_not_mem h.1, ih h.2]
      rfl

theorem getLast?_withReturns (text : List Char) : (withReturns text).getLast? = text.getLast? := by
  rcases List.eq_nil_or_concat' text with rfl | ⟨front, c, rfl⟩
  · rfl
  · rw [withReturns_append, List.getLast?_concat]
    by_cases hc : c = '\n'
    · subst hc
      exact List.getLast?_append_of_ne_nil _ (List.cons_ne_nil _ _)
    · rw [withReturns_cons_of_ne hc]
      exact List.getLast?_concat

/-- Line ends do not belong to the lines, of whichever kind they are. -/
theorem lines_withReturns {text : List Char} (h : '\r' ∉ text) :
    lines (withReturns text) = lines text := by
  induction text with
  | nil => rfl
  | cons c text ih =>
    rw [List.mem_cons, not_or] at h
    have hrest := ih h.2
    by_cases hc : c = '\n'
    · subst hc
      exact congrArg ([] :: ·) hrest
    · have hreturn : ∀ cs : List Char, c = '\r' → cs.head? ≠ some '\n' :=
        fun _ hc => absurd hc.symm h.1
      rw [withReturns_cons_of_ne hc, lines_cons_of_ne hc (hreturn _),
        lines_cons_of_ne hc (hreturn _), hrest]

end Stencil.Text

namespace Stencil.Source

open Text

/-- The parts of a formatted text: its lines, and what follows the last line end. -/
def formattedParts (text : List Char) : List Line :=
  formatLines (lines text) ++ if text.getLast? = some '\n' then [[]] else []

theorem formatChars_eq_join (text : List Char) :
    formatChars text = join (lineEnd text) (formattedParts text) := by
  rw [formatChars, formattedParts]
  by_cases hend : text.getLast? = some '\n'
  · have hne : formatLines (lines text) ≠ [] := by
      rw [← List.length_pos_iff, length_formatLines, List.length_pos_iff]
      refine lines_ne_nil ?_
      rintro rfl
      cases hend
    rw [if_pos hend, if_pos hend, join_append_singleton _ _ hne, List.append_nil]
  · rw [if_neg hend, if_neg hend, List.append_nil, List.append_nil]

theorem isLine_of_mem_formattedParts (text : List Char) :
    ∀ part ∈ formattedParts text, IsLine part := by
  rw [formattedParts, List.forall_mem_append]
  refine ⟨isLine_of_mem_formatLines (not_mem_feed_of_mem_lines text), fun part hpart => ?_⟩
  obtain rfl : part = [] := by
    split at hpart
    · exact List.mem_singleton.1 hpart
    · cases hpart
  exact ⟨List.not_mem_nil, by decide⟩

theorem not_mem_feed_of_mem_formattedParts (text : List Char) :
    ∀ part ∈ formattedParts text, '\n' ∉ part :=
  fun part hpart => (isLine_of_mem_formattedParts text part hpart).not_mem_feed

/-- There is one part more than the text has line feeds, and none if the text is empty. -/
theorem length_formattedParts (text : List Char) :
    (formattedParts text).length - 1 = text.count '\n' := by
  rw [formattedParts, List.length_append, length_formatLines, length_lines, openEnds]
  cases hlast : text.getLast? with
  | none =>
    rw [List.getLast?_eq_none_iff.1 hlast]
    rfl
  | some c =>
    by_cases hc : c = '\n'
    · simp [hc]
    · simp [hc]

theorem count_feed_formatChars (text : List Char) :
    (formatChars text).count '\n' = text.count '\n' := by
  rw [formatChars_eq_join, count_feed_join (isLineEnd_lineEnd text)
    (not_mem_feed_of_mem_formattedParts text), length_formattedParts]

/-- The line end of a text has a carriage return exactly if its first line feed stands behind
one. -/
theorem lineEnd_eq_iff {text : List Char} :
    lineEnd text = ['\r', '\n'] ↔ BreaksWithReturn text := by
  constructor
  · intro h
    fun_induction lineEnd text with
    | case1 => cases h
    | case2 cs => exact ⟨[], cs, rfl, List.not_mem_nil⟩
    | case3 cs => cases h
    | case4 c cs _ hfeed ih =>
      obtain ⟨front, rest, rfl, hfront⟩ := ih h
      refine ⟨c :: front, rest, rfl, ?_⟩
      rw [List.mem_cons, not_or]
      exact ⟨fun hc => hfeed hc.symm, hfront⟩
  · rintro ⟨front, rest, rfl, hfront⟩
    induction front with
    | nil => rfl
    | cons c front ih =>
      rw [List.mem_cons, not_or] at hfront
      rw [List.cons_append, lineEnd_cons_of_ne (Ne.symm hfront.1) fun _ => ?_, ih hfront.2]
      cases front with
      | nil => simp
      | cons d front => simpa using Ne.symm (List.ne_of_not_mem_cons hfront.2)

theorem lineEnd_of_not_mem_return {text : List Char} (h : '\r' ∉ text) : lineEnd text = ['\n'] := by
  refine (isLineEnd_lineEnd text).resolve_right fun hend => ?_
  obtain ⟨front, rest, rfl, -⟩ := lineEnd_eq_iff.1 hend
  simp at h

theorem lineEnd_withReturns {text : List Char} (h : '\n' ∈ text) :
    lineEnd (withReturns text) = ['\r', '\n'] := by
  obtain ⟨front, rest, rfl, hfront⟩ := List.eq_append_cons_of_mem h
  rw [lineEnd_eq_iff]
  refine ⟨front, withReturns rest, ?_, hfront⟩
  rw [withReturns_append, withReturns_of_not_mem hfront]
  rfl

/-- A text with the other line ends is formatted to the same lines with the other line ends. -/
theorem formatChars_withReturns {text : List Char} (h : '\r' ∉ text) :
    formatChars (withReturns text) = withReturns (formatChars text) := by
  by_cases hfeed : '\n' ∈ text
  · have hparts : formattedParts (withReturns text) = formattedParts text := by
      rw [formattedParts, formattedParts, lines_withReturns h, getLast?_withReturns]
    rw [formatChars_eq_join, formatChars_eq_join text, hparts, lineEnd_withReturns hfeed,
      lineEnd_of_not_mem_return h, withReturns_join (not_mem_feed_of_mem_formattedParts text)]
  · have hformatted : '\n' ∉ formatChars text := by
      rw [← List.count_eq_zero, count_feed_formatChars, List.count_eq_zero]
      exact hfeed
    rw [withReturns_of_not_mem hfeed, withReturns_of_not_mem hformatted]

/-- A formatted text has as many line feeds as the text. They all stand behind carriage returns if
the first one of the text does, and none does otherwise. If a text without carriage returns gets
one before every line feed, so does the formatted text. -/
theorem formatText_lineEnds (text : String) :
    (formatText text).toList.count '\n' = text.toList.count '\n' ∧
    (∀ front rest, (formatText text).toList = front ++ '\n' :: rest →
      (front.getLast? = some '\r' ↔ BreaksWithReturn text.toList)) ∧
    ('\r' ∉ text.toList →
      formatText (String.ofList (withReturns text.toList)) =
        String.ofList (withReturns (formatText text).toList)) := by
  have htext : (formatText text).toList = formatChars text.toList := String.toList_ofList
  rw [htext]
  refine ⟨count_feed_formatChars _, fun front rest hfront => ?_, fun hreturn => ?_⟩
  · have hchain := isChain_feedsBehind_join (isLineEnd_lineEnd text.toList)
      (isLine_of_mem_formattedParts text.toList)
    rw [← formatChars_eq_join] at hchain
    rw [getLast?_eq_return_iff hchain hfront, lineEnd_eq_iff]
  · rw [formatText, String.toList_ofList, formatChars_withReturns hreturn]

/-- Include lines that change places, the second with blanks at its end, and a last line without
line end: the carriage returns come and go with those of the text. -/
theorem formatText_lineEnds_includes :
    '\r' ∉ "#include \"b.h\"\n#include <a.h> \nx".toList ∧
      formatText "#include \"b.h\"\n#include <a.h> \nx" = "#include <a.h>\n#include \"b.h\"\nx" ∧
      formatText "#include \"b.h\"\r\n#include <a.h> \r\nx" =
        "#include <a.h>\r\n#include \"b.h\"\r\nx" ∧
      BreaksWithReturn "#include \"b.h\"\r\n#include <a.h> \r\nx".toList := by
  have hreturn : '\r' ∉ "#include \"b.h\"\n#include <a.h> \nx".toList := by decide
  have hformat : formatText "#include \"b.h\"\n#include <a.h> \nx" =
      "#include <a.h>\n#include \"b.h\"\nx" := by decide +kernel
  have hother := (formatText_lineEnds "#include \"b.h\"\n#include <a.h> \nx").2.2 hreturn
  rw [hformat] at hother
  have hreturns : formatText "#include \"b.h\"\r\n#include <a.h> \r\nx" =
      "#include <a.h>\r\n#include \"b.h\"\r\nx" := hother
  refine ⟨hreturn, hformat, hreturns, ?_⟩
  refine ((formatText_lineEnds "#include \"b.h\"\r\n#include <a.h> \r\nx").2.1
    "#include <a.h>\r".toList "#include \"b.h\"\r\nx".toList ?_).1 (by decide)
  rw [hreturns]
  decide

end Stencil.Source
