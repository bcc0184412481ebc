import Stencil.Proofs.Template.Position
import Stencil.Proofs.Template.Reading

/-!
# The fault that a template is rejected for

Rendering goes through the marks of a template from the left and stops at the first that has a fault
(`renderPieces_eq_error_iff`), so the fault that is told is the leftmost one, and the text before a
stray dollar sign that is told can be rendered (`render_error_leftmost`).
-/

namespace Stencil.Template

/-! ## Faults of marks -/

variable (names : String → Option Value)

/-- Why a mark at a place has no text: it is a stray dollar sign, or its name has no value or one
that is an array or object. -/
def Mark.fault? (position : Position) : Mark → Option Fault
  | .char _ | .dollars => none
  | .bare name | .braced name => (Part.placeholder (String.ofList name) false).fault? names
  | .stray => some (.invalidPlaceholder position)

variable {names}

theorem Mark.render_piece_eq_error_iff {mark : Mark} {position : Position} {fault : Fault} :
    (mark.piece position).render names = .error fault ↔
      mark.fault? names position = some fault := by
  cases mark with
  | char | dollars => exact iff_of_false (fun h => by cases h) (fun h => by cases h)
  | bare name | braced name =>
    simp only [piece, fault?, Part.fault?, Piece.render]
    cases names (String.ofList name) with
    | none => simp
    | some value => cases value <;> simp [valueText, Value.text?, Except.map]
  | stray => simp [piece, fault?, Piece.render]

/-- A place is told with stray dollar signs only, and it is their own. -/
theorem Mark.eq_stray_of_fault? {mark : Mark} {place position : Position}
    (h : mark.fault? names place = some (.invalidPlaceholder position)) :
    mark = .stray ∧ position = place := by
  cases mark with
  | char | dollars => cases h
  | bare name | braced name =>
    rw [fault?, Part.fault?] at h
    split at h <;> cases h
  | stray =>
    cases h
    exact ⟨rfl, rfl⟩

/-- Whether a mark has a fault does not depend on its place. -/
theorem Mark.fault?_eq_none {mark : Mark} {position : Position}
    (h : mark.fault? names position = none) (position' : Position) :
    mark.fault? names position' = none := by
  cases mark with
  | char | dollars | bare | braced => exact h
  | stray => cases h

/-- The text of a piece that has no fault. -/
theorem Mark.exists_render_piece {mark : Mark} {position : Position}
    (h : mark.fault? names position = none) :
    ∃ text, (mark.piece position).render names = .ok text := by
  cases hrender : (mark.piece position).render names with
  | ok text => exact ⟨text, rfl⟩
  | error fault =>
    rw [Mark.render_piece_eq_error_iff.1 hrender] at h
    cases h

variable (names) in
/-- Whether nothing of the marks has a fault. -/
def Flawless (marks : List Mark) : Prop :=
  ∀ mark ∈ marks, ∀ position, mark.fault? names position = none

section

variable {mark : Mark} {marks : List Mark} {position : Position} {fault : Fault}

theorem renderPieces_cons_of_fault (h : mark.fault? names position = some fault) :
    renderPieces names (piecesAt position (mark :: marks)) = .error fault := by
  rw [piecesAt, renderPieces, Mark.render_piece_eq_error_iff.2 h]
  rfl

theorem renderPieces_cons_eq_error_iff (h : mark.fault? names position = none) :
    renderPieces names (piecesAt position (mark :: marks)) = .error fault ↔
      renderPieces names (piecesAt (position.after mark.text) marks) = .error fault := by
  obtain ⟨text, hrender⟩ := Mark.exists_render_piece h
  rw [piecesAt, renderPieces, hrender]
  cases renderPieces names (piecesAt (position.after mark.text) marks) with
  | error fault' => rfl
  | ok rest => exact iff_of_false (fun h => by cases h) (fun h => by cases h)

/-- The first of the marks that has a fault decides. -/
theorem renderPieces_eq_error_iff :
    renderPieces names (piecesAt position marks) = .error fault ↔
      ∃ before mark after, marks = before ++ mark :: after ∧ Flawless names before ∧
        mark.fault? names (position.after (before.flatMap Mark.text)) = some fault := by
  induction marks generalizing position with
  | nil =>
    refine iff_of_false (fun h => by cases h) ?_
    rintro ⟨before, mark, after, hmarks, -⟩
    cases before <;> cases hmarks
  | cons mark marks ih =>
    cases hfault : mark.fault? names position with
    | some fault' =>
      rw [renderPieces_cons_of_fault hfault]
      constructor
      · intro heq
        cases heq
        exact ⟨[], mark, marks, rfl, List.forall_mem_nil _, hfault⟩
      · rintro ⟨before, mark', after, hmarks, hflawless, hfault'⟩
        cases before with
        | nil =>
          cases hmarks
          rw [Option.some.inj (hfault.symm.trans hfault')]
        | cons first before =>
          cases hmarks
          rw [hflawless mark List.mem_cons_self position] at hfault
          cases hfault
    | none =>
      rw [renderPieces_cons_eq_error_iff hfault, ih]
      constructor
      · rintro ⟨before, mark', after, rfl, hflawless, hfault'⟩
        refine ⟨mark :: before, mark', after, rfl, ?_, ?_⟩
        · rw [Flawless, List.forall_mem_cons]
          exact ⟨Mark.fault?_eq_none hfault, hflawless⟩
        · rwa [List.flatMap_cons, Position.after_append]
      · rintro ⟨before, mark', after, hmarks, hflawless, hfault'⟩
        cases before with
        | nil =>
          cases hmarks
          rw [Mark.fault?_eq_none hfault] at hfault'
          cases hfault'
        | cons first before =>
          cases hmarks
          rw [Flawless, List.forall_mem_cons] at hflawless
          rw [List.flatMap_cons, Position.after_append] at hfault'
          exact ⟨before, mark', after, rfl, hflawless.2, hfault'⟩

end

/-! ## Faults of templates -/

variable (names) in
/-- Read from the left, the template has this fault at the place behind its start `front`. -/
def FaultAt (template front : List Char) (fault : Fault) : Prop :=
  ∃ before mark after position, ReadAs (before ++ mark :: after) template ∧
    front = before.flatMap Mark.text ∧ position.IsBehind front template ∧
      mark.fault? names position = some fault

section

variable {marks : List Mark}

theorem ReadAs.faultAt_iff {template front : List Char} {fault : Fault}
    (h : ReadAs marks template) :
    FaultAt names template front fault ↔
      ∃ before mark after, marks = before ++ mark :: after ∧ front = before.flatMap Mark.text ∧
        mark.fault? names (Position.start.after front) = some fault := by
  have hbegins : ∀ {before after : List Mark}, marks = before ++ after →
      before.flatMap Mark.text <+: template := by
    rintro before after rfl
    rw [h.eq_flatMap, List.flatMap_append]
    exact List.prefix_append _ _
  constructor
  · rintro ⟨before, mark, after, position, hread, rfl, hposition, hfault⟩
    have hmarks := h.unique hread
    rw [(Position.isBehind_iff (hbegins hmarks)).1 hposition] at hfault
    exact ⟨before, mark, after, hmarks, rfl, hfault⟩
  · rintro ⟨before, mark, after, rfl, rfl, hfault⟩
    exact ⟨before, mark, after, _, h, rfl, (Position.isBehind_iff (hbegins rfl)).2 rfl, hfault⟩

theorem ReadAs.render_eq_error_iff {template : String} {fault : Fault}
    (h : ReadAs marks template.toList) :
    render names template = .error fault ↔
      ∃ before mark after, marks = before ++ mark :: after ∧ Flawless names before ∧
        mark.fault? names (Position.start.after (before.flatMap Mark.text)) = some fault := by
  rw [← renderPieces_eq_error_iff, ← h.piecesFrom_eq, render, pieces]
  cases renderPieces names (piecesFrom .start template.toList) with
  | error fault' => exact ⟨fun h => by cases h; rfl, fun h => by cases h; rfl⟩
  | ok text => exact iff_of_false (fun h => by cases h) (fun h => by cases h)

theorem ReadAs.exists_render_eq_ok {template : String} (h : ReadAs marks template.toList)
    (hflawless : Flawless names marks) : ∃ text, render names template = .ok text := by
  cases hrender : render names template with
  | ok text => exact ⟨text, rfl⟩
  | error fault =>
    obtain ⟨before, mark, after, rfl, -, hfault⟩ := h.render_eq_error_iff.1 hrender
    rw [hflawless mark (by simp)] at hfault
    cases hfault

theorem length_flatMap_text_lt (before : List Mark) (mark : Mark) (after : List Mark) :
    (before.flatMap Mark.text).length < ((before ++ mark :: after).flatMap Mark.text).length := by
  have := List.length_pos_iff.2 mark.text_ne_nil
  rw [List.flatMap_append, List.flatMap_cons, List.length_append, List.length_append]
  omega

/-- Of two places of a template one is further left, or the same mark stands at both. -/
theorem places_trichotomy {before before' after after' : List Mark} {mark mark' : Mark}
    (h : before ++ mark :: after = before' ++ mark' :: after') :
    before = before' ∨
      mark ∈ before' ∧
        (before.flatMap Mark.text).length < (before'.flatMap Mark.text).length ∨
      mark' ∈ before ∧
        (before'.flatMap Mark.text).length < (before.flatMap Mark.text).length := by
  rcases List.append_eq_append_iff.1 h with ⟨more, rfl, hmore⟩ | ⟨more, rfl, hmore⟩
  · cases more with
    | nil => exact .inl (List.append_nil _).symm
    | cons first more =>
      cases hmore
      exact .inr (.inl ⟨by simp, length_flatMap_text_lt ..⟩)
  · cases more with
    | nil => exact .inl (List.append_nil _)
    | cons first more =>
      cases hmore
      exact .inr (.inr ⟨by simp, length_flatMap_text_lt ..⟩)

end

/-- A template is rejected exactly if it has a fault, and then for the leftmost one. -/
theorem render_eq_error_iff_leftmost {template : String} {fault : Fault} :
    render names template = .error fault ↔
      ∃ front, FaultAt names template.toList front fault ∧
        ∀ front' fault', FaultAt names template.toList front' fault' →
          front.length ≤ front'.length := by
  obtain ⟨marks, hread⟩ := exists_readAs template.toList
  rw [hread.render_eq_error_iff]
  constructor
  · rintro ⟨before, mark, after, hmarks, hflawless, hfault⟩
    refine ⟨_, hread.faultAt_iff.2 ⟨before, mark, after, hmarks, rfl, hfault⟩, ?_⟩
    intro front' fault' hfront'
    obtain ⟨before', mark', after', hmarks', rfl, hfault'⟩ := hread.faultAt_iff.1 hfront'
    rcases places_trichotomy (hmarks.symm.trans hmarks') with rfl | ⟨-, hlt⟩ | ⟨hmem, -⟩
    · exact Nat.le_refl _
    · exact Nat.le_of_lt hlt
    · rw [hflawless mark' hmem] at hfault'
      cases hfault'
  · rintro ⟨front, hfront, hleast⟩
    obtain ⟨before, mark, after, hmarks, rfl, hfault⟩ := hread.faultAt_iff.1 hfront
    refine ⟨before, mark, after, hmarks, fun earlier hearlier position => ?_, hfault⟩
    obtain ⟨front, between, rfl⟩ := List.append_of_mem hearlier
    cases hearlier : earlier.fault? names (Position.start.after (front.flatMap Mark.text)) with
    | none => exact Mark.fault?_eq_none hearlier position
    | some fault' =>
      rw [List.append_assoc, List.cons_append] at hmarks
      have hle := hleast _ fault' (hread.faultAt_iff.2 ⟨front, earlier, _, hmarks, rfl, hearlier⟩)
      have hlt := length_flatMap_text_lt front earlier between
      omega

/-- A template with a fault anywhere is rejected. -/
theorem FaultAt.exists_render_eq_error {template : String} {front : List Char} {fault : Fault}
    (h : FaultAt names template.toList front fault) :
    ∃ fault', render names template = .error fault' := by
  -- By how far left the fault is: it is the leftmost one, or there is one further left.
  induction hn : front.length using Nat.strongRecOn generalizing front fault with
  | _ n ih =>
    by_cases hleast : ∀ front' fault', FaultAt names template.toList front' fault' →
        front.length ≤ front'.length
    · exact ⟨fault, render_eq_error_iff_leftmost.2 ⟨front, h, hleast⟩⟩
    · simp only [Classical.not_forall, Nat.not_le] at hleast
      obtain ⟨front', fault', h', hlt⟩ := hleast
      exact ih _ (hn ▸ hlt) h' rfl

/-- What is before a stray dollar sign that the template is rejected for can be rendered. -/
theorem exists_render_before_stray {template : String} {position : Position}
    (h : render names template = .error (.invalidPlaceholder position)) :
    ∃ front rest, template.toList = front ++ '$' :: rest ∧
      FaultAt names template.toList front (.invalidPlaceholder position) ∧
      position = Position.start.after front ∧
        ∃ text, render names (String.ofList front) = .ok text := by
  obtain ⟨marks, hread⟩ := exists_readAs template.toList
  obtain ⟨before, mark, after, rfl, hflawless, hfault⟩ := hread.render_eq_error_iff.1 h
  have hat := hread.faultAt_iff.2 ⟨before, mark, after, rfl, rfl, hfault⟩
  obtain ⟨rfl, rfl⟩ := Mark.eq_stray_of_fault? hfault
  have hstray : .stray ∉ before := by
    intro hmem
    have hnone := hflawless .stray hmem .start
    cases hnone
  have hbefore : ReadAs before (String.ofList (before.flatMap Mark.text)).toList := by
    rw [String.toList_ofList]
    exact hread.of_append hstray
  refine ⟨before.flatMap Mark.text, after.flatMap Mark.text, ?_, hat, rfl,
    hbefore.exists_render_eq_ok hflawless⟩
  rw [hread.eq_flatMap, List.flatMap_append, List.flatMap_cons]
  rfl

/-! ## The whole -/

/-- Rendering fails exactly if the template has a fault when it is read from the left: a dollar sign
that begins nothing, or a name that has no value or one without a text. What is told is the leftmost
fault. A place that is told is that of a dollar sign, whose number in its line and the number of the
line are told, and the text before it can be rendered. -/
theorem render_error_leftmost (names : String → Option Value) (template : String) :
    ((∃ fault, render names template = .error fault) ↔
      ∃ front fault, FaultAt names template.toList front fault) ∧
    (∀ fault, render names template = .error fault ↔
      ∃ front, FaultAt names template.toList front fault ∧
        ∀ front' fault', FaultAt names template.toList front' fault' →
          front.length ≤ front'.length) ∧
    ∀ position, render names template = .error (.invalidPlaceholder position) →
      ∃ front rest told, template.toList = front ++ '$' :: rest ∧
        FaultAt names template.toList front (.invalidPlaceholder position) ∧
        position.IsBehind front template.toList ∧
        (Text.cut '\n' template.toList)[position.line - 1]? = some told ∧
        told[position.column - 1]? = some '$' ∧
        ∃ text, render names (String.ofList front) = .ok text := by
  refine ⟨⟨?_, ?_⟩, fun fault => render_eq_error_iff_leftmost, fun position h => ?_⟩
  · rintro ⟨fault, h⟩
    obtain ⟨front, hfront, -⟩ := render_eq_error_iff_leftmost.1 h
    exact ⟨front, fault, hfront⟩
  · rintro ⟨front, fault, h⟩
    exact h.exists_render_eq_error
  · obtain ⟨front, rest, htemplate, hfront, rfl, htext⟩ := exists_render_before_stray h
    have hbegins : front <+: template.toList := ⟨'$' :: rest, htemplate.symm⟩
    have hdollar : '$' ≠ '\n' := by decide
    obtain ⟨told, htold, hcolumn⟩ := Position.exists_line_of_char front rest hdollar
    rw [← htemplate] at htold
    exact ⟨front, rest, told, htemplate, hfront, (Position.isBehind_iff hbegins).2 rfl, htold,
      hcolumn, htext⟩

/-- A stray dollar sign in the second line, before a name without a value: a value with a dollar
sign of its own does not count, and neither do the bytes that a character takes. -/
theorem render_error_leftmost_second_line :
    let names : String → Option Value := fun name =>
      if name = "a" then some (.string "$") else if name = "b" then some .null else none
    let template := "\u00e4$a\n$\x7bb\x7d\u00e9 $1 $c"
    render names template = .error (.invalidPlaceholder ⟨2, 7⟩) ∧
      ∃ front rest told, template.toList = front ++ '$' :: rest ∧
        FaultAt names template.toList front (.invalidPlaceholder ⟨2, 7⟩) ∧
        (Text.cut '\n' template.toList)[1]? = some told ∧ told[6]? = some '$' ∧
        ∃ text, render names (String.ofList front) = .ok text := by
  intro names template
  have hpieces : pieces template.toList =
      [.char '\u00e4', .placeholder "a", .char '\n', .placeholder "b", .char '\u00e9', .char ' ',
        .stray ⟨2, 7⟩, .char '1', .char ' ', .placeholder "c"] := by decide +kernel
  have hrender : render names template = .error (.invalidPlaceholder ⟨2, 7⟩) := by
    rw [render, hpieces]
    rfl
  obtain ⟨front, rest, told, htemplate, hfront, -, htold, hcolumn, htext⟩ :=
    (render_error_leftmost names template).2.2 ⟨2, 7⟩ hrender
  exact ⟨hrender, front, rest, told, htemplate, hfront, htold, hcolumn, htext⟩

end Stencil.Template
