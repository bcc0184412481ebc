import Stencil.Proofs.Template.Printing

/-!
# Templates read from the left

What stands at each place of a template is told without the pieces that it is cut into: a dollar
sign stands for itself twice over, begins a name as long as possible or a name in braces, or is
stray. Every template can be read in this way (`exists_readAs`), and in one way only
(`ReadAs.unique`); the pieces are those of the marks that it is read as (`ReadAs.piecesFrom_eq`).
-/

namespace Stencil.Template

/-- What stands at a place of a template. -/
inductive Mark where
  /-- A character that stands for itself. -/
  | char (c : Char)
  /-- Two dollar signs, which stand for one. -/
  | dollars
  /-- A dollar sign and a name. -/
  | bare (name : List Char)
  /-- A dollar sign and a name in braces. -/
  | braced (name : List Char)
  /-- A dollar sign that begins none of these. -/
  | stray
  deriving DecidableEq, Repr

namespace Mark

/-- How a mark is written. -/
def text : Mark → List Char
  | char c => [c]
  | dollars => ['$', '$']
  | bare name => '$' :: name
  | braced name => '$' :: '{' :: (name ++ ['}'])
  | stray => ['$']

/-- Whether a mark is what stands before the text `rest`. -/
def StandsBefore (rest : List Char) : Mark → Prop
  | char c => c ≠ '$'
  | dollars => True
  | bare name => Text.isIdentifier name = true ∧ endsName rest = true
  | braced name => Text.isIdentifier name = true
  | stray => rest.head? ≠ some '$' ∧ ∀ name, Text.isIdentifier name = true →
      ¬ name <+: rest ∧ ¬ '{' :: (name ++ ['}']) <+: rest

/-- The piece that a mark at a place is cut out as. -/
def piece (position : Position) : Mark → Piece
  | char c => .char c
  | dollars => .char '$'
  | bare name | braced name => .placeholder (String.ofList name)
  | stray => .stray position

end Mark

/-- Read from the left, a template is these marks. -/
inductive ReadAs : List Mark → List Char → Prop
  | nil : ReadAs [] []
  | cons {mark : Mark} {marks : List Mark} {rest : List Char} (hmark : mark.StandsBefore rest)
      (h : ReadAs marks rest) : ReadAs (mark :: marks) (mark.text ++ rest)

/-! ## What a dollar sign begins -/

theorem endsName_of_identifier? {text name rest : List Char}
    (h : Text.identifier? text = some (name, rest)) : endsName rest = true := by
  cases text with
  | nil => cases h
  | cons c cs =>
    cases hc : Text.isIdentifierStart c with
    | false => simp [Text.identifier?, hc] at h
    | true =>
      simp only [Text.identifier?, hc, if_true, Option.some.injEq, Prod.mk.injEq] at h
      have hnot := List.head?_dropWhile_not Text.isIdentifierChar cs
      rw [h.2] at hnot
      cases hhead : rest.head? with
      | none => rw [endsName, hhead, Option.all_none]
      | some d => simpa [endsName, hhead] using hnot

/-- An identifier at the start of a text belongs to the longest one. -/
theorem exists_identifier?_of_prefix {name text : List Char} (h : Text.isIdentifier name = true)
    (hbegins : name <+: text) : ∃ parts, Text.identifier? text = some parts := by
  cases name with
  | nil => cases h
  | cons c cs =>
    obtain ⟨after, rfl⟩ := hbegins
    exact ⟨_, if_pos (Bool.and_eq_true_iff.1 h).1⟩

/-- A stray dollar sign begins nothing. -/
theorem substitution?_stray {rest : List Char} (h : Mark.stray.StandsBefore rest) :
    substitution? rest = none := by
  obtain ⟨hdollar, hname⟩ := h
  unfold substitution?
  split
  · exact absurd rfl hdollar
  · next rest =>
    split
    · next name after hread =>
      have hbraces : '{' :: (name ++ ['}']) <+: '{' :: rest := by
        rw [← Text.append_of_identifier? hread, List.cons_prefix_cons]
        exact ⟨rfl, after, by simp⟩
      exact absurd hbraces (hname name (Text.isIdentifier_of_identifier? hread)).2
    · rfl
  · cases hread : Text.identifier? rest with
    | none => rfl
    | some parts =>
      obtain ⟨name, after⟩ := parts
      have hbare : name <+: rest := ⟨after, Text.append_of_identifier? hread⟩
      exact absurd hbare (hname name (Text.isIdentifier_of_identifier? hread)).1

/-- The text behind a dollar sign tells what it begins. -/
theorem exists_mark_of_dollar (rest : List Char) :
    ∃ (mark : Mark) (after : List Char),
      '$' :: rest = mark.text ++ after ∧ mark.StandsBefore after := by
  by_cases hdollar : rest.head? = some '$'
  · obtain ⟨after, rfl⟩ := List.head?_eq_some_iff.1 hdollar
    exact ⟨.dollars, after, rfl, trivial⟩
  by_cases hbare : ∃ name, Text.isIdentifier name = true ∧ name <+: rest
  · obtain ⟨name, hname, hbegins⟩ := hbare
    obtain ⟨⟨longest, after⟩, hread⟩ := exists_identifier?_of_prefix hname hbegins
    refine ⟨.bare longest, after, ?_, Text.isIdentifier_of_identifier? hread,
      endsName_of_identifier? hread⟩
    rw [Mark.text, List.cons_append, Text.append_of_identifier? hread]
  by_cases hbraced : ∃ name, Text.isIdentifier name = true ∧ '{' :: (name ++ ['}']) <+: rest
  · obtain ⟨name, hname, after, rfl⟩ := hbraced
    exact ⟨.braced name, after, by simp [Mark.text], hname⟩
  refine ⟨.stray, rest, rfl, hdollar, fun name hname => ⟨fun h => ?_, fun h => ?_⟩⟩
  · exact hbare ⟨name, hname, h⟩
  · exact hbraced ⟨name, hname, h⟩

theorem Mark.text_ne_nil (mark : Mark) : mark.text ≠ [] := by
  cases mark <;> exact List.cons_ne_nil _ _

/-- Every template can be read from the left. -/
theorem exists_readAs (template : List Char) : ∃ marks, ReadAs marks template := by
  induction hn : template.length using Nat.strongRecOn generalizing template with
  | _ n ih =>
    subst hn
    cases template with
    | nil => exact ⟨[], .nil⟩
    | cons c rest =>
      obtain ⟨mark, after, htext, hmark⟩ : ∃ (mark : Mark) (after : List Char),
          c :: rest = mark.text ++ after ∧ mark.StandsBefore after := by
        by_cases hc : c = '$'
        · subst hc
          exact exists_mark_of_dollar rest
        · exact ⟨.char c, rest, rfl, hc⟩
      have hlt : after.length < (c :: rest).length := by
        rw [htext, List.length_append]
        have := List.length_pos_iff.2 mark.text_ne_nil
        omega
      obtain ⟨marks, hmarks⟩ := ih _ hlt after rfl
      rw [htext]
      exact ⟨mark :: marks, .cons hmark hmarks⟩

/-! ## Marks and pieces -/

variable {mark : Mark} {rest : List Char}

/-- The first piece of a template is that of its first mark. -/
theorem piecesFrom_mark (h : mark.StandsBefore rest) (position : Position) :
    piecesFrom position (mark.text ++ rest) =
      mark.piece position :: piecesFrom (position.after mark.text) rest := by
  cases mark with
  | char c => exact piecesFrom_of_ne position rest h
  | dollars =>
    have hread : substitution? (['$'] ++ rest) = some ⟨.char '$', ['$']⟩ := rfl
    exact piecesFrom_dollar position hread
  | bare name => exact piecesFrom_dollar position (substitution?_bare h.1 h.2)
  | braced name =>
    have hread := substitution?_braces h rest
    have htext : '{' :: (name ++ '}' :: rest) = '{' :: (name ++ ['}']) ++ rest := by simp
    rw [htext] at hread
    exact piecesFrom_dollar position hread
  | stray =>
    rw [Mark.text, List.singleton_append, piecesFrom, if_pos rfl, substitution?_stray h]
    rfl

/-- A name in braces does not begin like a name. -/
theorem ne_brace_of_isIdentifier {name rest rest' : List Char}
    (h : Text.isIdentifier name = true) : name ++ rest ≠ '{' :: rest' := by
  cases name with
  | nil => cases h
  | cons c cs =>
    intro heq
    obtain rfl : c = '{' := (List.cons.inj heq).1
    rw [Text.isIdentifier, Bool.and_eq_true] at h
    exact absurd h.1 (by decide)

/-- At a place of a template there stands one mark only. -/
theorem mark_unique {mark' : Mark} {rest' : List Char} (h : mark.StandsBefore rest)
    (h' : mark'.StandsBefore rest') (heq : mark.text ++ rest = mark'.text ++ rest') :
    mark = mark' ∧ rest = rest' := by
  have hpieces := piecesFrom_mark h .start
  rw [heq, piecesFrom_mark h' .start] at hpieces
  obtain ⟨hpiece, -⟩ := List.cons.inj hpieces
  have hmark : mark = mark' := by
    cases mark with
    | char c =>
      cases mark' with
      | char d =>
        cases hpiece
        rfl
      | dollars =>
        cases hpiece
        exact absurd rfl h
      | bare | braced | stray => cases hpiece
    | dollars =>
      cases mark' with
      | char d =>
        cases hpiece
        exact absurd rfl h'
      | dollars => rfl
      | bare | braced | stray => cases hpiece
    | bare name =>
      cases mark' with
      | bare name' => rw [String.ofList_injective (Piece.placeholder.inj hpiece)]
      | braced name' => exact absurd (List.cons.inj heq).2 (ne_brace_of_isIdentifier h.1)
      | char | dollars | stray => cases hpiece
    | braced name =>
      cases mark' with
      | bare name' => exact absurd (List.cons.inj heq).2.symm (ne_brace_of_isIdentifier h'.1)
      | braced name' => rw [String.ofList_injective (Piece.placeholder.inj hpiece)]
      | char | dollars | stray => cases hpiece
    | stray =>
      cases mark' with
      | stray => rfl
      | char | dollars | bare | braced => cases hpiece
  subst hmark
  exact ⟨rfl, List.append_cancel_left heq⟩

theorem Mark.StandsBefore.of_append {more : List Char} (h : mark.StandsBefore (rest ++ more))
    (hstray : mark ≠ .stray) : mark.StandsBefore rest := by
  cases mark with
  | char | dollars | braced => exact h
  | bare name =>
    refine ⟨h.1, ?_⟩
    cases rest with
    | nil => rfl
    | cons c rest => exact h.2
  | stray => exact absurd rfl hstray

/-- The pieces that marks are cut out as, the first of them at a place. -/
def piecesAt (position : Position) : List Mark → List Piece
  | [] => []
  | mark :: marks => mark.piece position :: piecesAt (position.after mark.text) marks

namespace ReadAs

variable {marks marks' : List Mark} {template : List Char}

theorem eq_flatMap (h : ReadAs marks template) : template = marks.flatMap Mark.text := by
  induction h with
  | nil => rfl
  | cons _ _ ih => rw [List.flatMap_cons, ← ih]

/-- A template is read in one way only. -/
theorem unique (h : ReadAs marks template) (h' : ReadAs marks' template) : marks = marks' := by
  induction h generalizing marks' with
  | nil =>
    generalize htext : ([] : List Char) = text at h'
    cases h' with
    | nil => rfl
    | @cons mark _ _ _ _ =>
      exact absurd (List.append_eq_nil_iff.1 htext.symm).1 mark.text_ne_nil
  | @cons mark marks rest hmark _ ih =>
    generalize htext : mark.text ++ rest = text at h'
    cases h' with
    | nil => exact absurd (List.append_eq_nil_iff.1 htext).1 mark.text_ne_nil
    | cons hmark' h' =>
      obtain ⟨rfl, rfl⟩ := mark_unique hmark hmark' htext
      rw [ih h']

theorem piecesFrom_eq (h : ReadAs marks template) (position : Position) :
    piecesFrom position template = piecesAt position marks := by
  induction h generalizing position with
  | nil => exact piecesFrom_nil position
  | cons hmark _ ih => rw [piecesFrom_mark hmark, ih, piecesAt]

/-- The start of a template is read as it is in the template, up to its first stray dollar sign:
with more behind it this might begin something. -/
theorem of_append {before after : List Mark} (h : ReadAs (before ++ after) template)
    (hstray : .stray ∉ before) : ReadAs before (before.flatMap Mark.text) := by
  induction before generalizing template with
  | nil => exact .nil
  | cons mark before ih =>
    rw [List.mem_cons, not_or] at hstray
    cases h with
    | @cons _ _ rest hmark h =>
      have hrest : rest = before.flatMap Mark.text ++ after.flatMap Mark.text :=
        h.eq_flatMap.trans List.flatMap_append
      rw [hrest] at hmark
      exact .cons (hmark.of_append (Ne.symm hstray.1)) (ih h hstray.2)

end ReadAs

end Stencil.Template
