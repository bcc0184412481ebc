import Stencil.Template

/-!
# Printing templates

A template is printed from parts: texts that stand for themselves, in which every dollar sign is
doubled, and names in or without braces. Rendering the print gives the texts and the values of the
names one after the other, or fails at the first name that has no text (`render_print`).

The pieces of the print are those of the parts (`piecesFrom_print`), wherever the print starts; so
what is put in for a name plays no role for where the next piece begins.
-/

namespace Stencil.Template

/-! ## Parts -/

/-- A part of what a template says. -/
inductive Part where
  /-- A text that stands for itself. -/
  | literal (text : String)
  /-- A name that stands for its value. It is printed without braces if this is wished and the text
  after it does not go on with the name. -/
  | placeholder (name : String) (bare : Bool)
  deriving DecidableEq, Repr

namespace Part

/-- Whether a name is an identifier. -/
def isWellFormed : Part → Bool
  | .literal _ => true
  | .placeholder name _ => Text.isIdentifier name.toList

/-- The pieces that a part stands for. -/
def pieces : Part → List Piece
  | .literal text => text.toList.map .char
  | .placeholder name _ => [.placeholder name]

/-- The text that a part stands for; nothing for a name that has no text. -/
def text (names : String → Option Value) : Part → String
  | .literal text => text
  | .placeholder name _ =>
    ((names name).bind fun value => (valueText name value).toOption).getD ""

/-- Why a part has no text: its name has no value, or one that is an array or object. -/
def fault? (names : String → Option Value) : Part → Option Fault
  | .literal _ => none
  | .placeholder name _ =>
    match names name with
    | none => some (.missingPlaceholder name)
    | some (.array _) | some (.object _) => some (.invalidValue name)
    | some (.null) | some (.bool _) | some (.number _) | some (.string _) => none

end Part

/-! ## Printing -/

/-- A character of a text that stands for itself: dollar signs are doubled. -/
def escape (c : Char) : List Char :=
  if c = '$' then ['$', '$'] else [c]

/-- Whether a name ends where the text begins. -/
def endsName (text : List Char) : Bool :=
  text.head?.all fun c => !Text.isIdentifierChar c

/-- The characters of a print. -/
def printChars : List Part → List Char
  | [] => []
  | .literal text :: parts => text.toList.flatMap escape ++ printChars parts
  | .placeholder name bare :: parts =>
    let rest := printChars parts
    if bare && endsName rest then '$' :: (name.toList ++ rest)
    else '$' :: '{' :: (name.toList ++ '}' :: rest)

/-- The template that says the parts. -/
def print (parts : List Part) : String :=
  String.ofList (printChars parts)

/-! ## The pieces of a print -/

theorem piecesFrom_nil (position : Position) : piecesFrom position [] = [] := by
  rw [piecesFrom]

theorem piecesFrom_of_ne (position : Position) {c : Char} (rest : List Char) (h : c ≠ '$') :
    piecesFrom position (c :: rest) = .char c :: piecesFrom (position.next c) rest := by
  rw [piecesFrom, if_neg h]

theorem piecesFrom_dollar (position : Position) {taken rest : List Char} {piece : Piece}
    (h : substitution? (taken ++ rest) = some ⟨piece, taken⟩) :
    piecesFrom position ('$' :: (taken ++ rest)) =
      piece :: piecesFrom (position.after ('$' :: taken)) rest := by
  rw [piecesFrom, if_pos rfl, h]
  dsimp only
  rw [List.drop_left]

theorem substitution?_braces {name : List Char} (h : Text.isIdentifier name) (rest : List Char) :
    substitution? ('{' :: (name ++ '}' :: rest)) =
      some ⟨.placeholder (String.ofList name), '{' :: (name ++ ['}'])⟩ := by
  have hread : Text.identifier? (name ++ '}' :: rest) = some (name, '}' :: rest) := by
    refine Text.identifier?_append h fun c hc => ?_
    cases hc
    decide
  rw [substitution?, hread]
  rfl

theorem substitution?_bare {name : List Char} (h : Text.isIdentifier name) {rest : List Char}
    (hrest : endsName rest) :
    substitution? (name ++ rest) = some ⟨.placeholder (String.ofList name), name⟩ := by
  have hread : Text.identifier? (name ++ rest) = some (name, rest) := by
    refine Text.identifier?_append h fun c hc => ?_
    rw [endsName, hc] at hrest
    simpa using hrest
  unfold substitution?
  split
  · next heq =>
    -- a dollar sign or an opening brace begins no identifier
    rw [heq] at hread
    cases hread
  · next heq =>
    rw [heq] at hread
    cases hread
  · rw [hread]
    rfl

section print

variable {rest : List Char} {pieces : List Piece}

theorem piecesFrom_escape (hrest : ∀ position, piecesFrom position rest = pieces)
    (position : Position) (text : List Char) :
    piecesFrom position (text.flatMap escape ++ rest) = text.map .char ++ pieces := by
  induction text generalizing position with
  | nil => exact hrest position
  | cons c cs ih =>
    rw [List.flatMap_cons, List.append_assoc, escape]
    split
    · next hc =>
      subst hc
      have hdollar : substitution? (['$'] ++ (cs.flatMap escape ++ rest)) =
          some ⟨.char '$', ['$']⟩ := rfl
      exact (piecesFrom_dollar position hdollar).trans (congrArg _ (ih _))
    · next hc => exact (piecesFrom_of_ne position _ hc).trans (congrArg _ (ih _))

theorem piecesFrom_braces (hrest : ∀ position, piecesFrom position rest = pieces)
    (position : Position) {name : List Char} (h : Text.isIdentifier name) :
    piecesFrom position ('$' :: '{' :: (name ++ '}' :: rest)) =
      .placeholder (String.ofList name) :: pieces := by
  have htaken : '{' :: (name ++ '}' :: rest) = '{' :: (name ++ ['}']) ++ rest := by simp
  have hread := substitution?_braces h rest
  rw [htaken] at hread ⊢
  rw [piecesFrom_dollar position hread, hrest]

theorem piecesFrom_bare (hrest : ∀ position, piecesFrom position rest = pieces)
    (position : Position) {name : List Char} (h : Text.isIdentifier name) (hends : endsName rest) :
    piecesFrom position ('$' :: (name ++ rest)) = .placeholder (String.ofList name) :: pieces := by
  rw [piecesFrom_dollar position (substitution?_bare h hends), hrest]

end print

/-- The pieces of a print are those of its parts. -/
theorem piecesFrom_print {parts : List Part} (h : ∀ part ∈ parts, part.isWellFormed) :
    ∀ position, piecesFrom position (printChars parts) = parts.flatMap Part.pieces := by
  induction parts with
  | nil => exact piecesFrom_nil
  | cons part parts ih =>
    obtain ⟨hpart, hparts⟩ := List.forall_mem_cons.1 h
    intro position
    cases part with
    | literal text => exact piecesFrom_escape (ih hparts) position text.toList
    | placeholder name bare =>
      rw [printChars, List.flatMap_cons, Part.pieces, List.singleton_append]
      split
      · next hbare =>
        obtain ⟨-, hends⟩ := Bool.and_eq_true_iff.1 hbare
        rw [piecesFrom_bare (ih hparts) position hpart hends, String.ofList_toList]
      · rw [piecesFrom_braces (ih hparts) position hpart, String.ofList_toList]

/-! ## Rendering a print -/

section render

variable (names : String → Option Value)

theorem renderPieces_append (first second : List Piece) :
    renderPieces names (first ++ second) = do
      let text ← renderPieces names first
      let rest ← renderPieces names second
      return text ++ rest := by
  induction first with
  | nil =>
    show _ = (renderPieces names second >>= fun rest => pure rest)
    rw [bind_pure, List.nil_append]
  | cons piece first ih =>
    rw [List.cons_append, renderPieces, ih, renderPieces]
    simp only [bind_assoc, pure_bind, List.append_assoc]

theorem renderPieces_chars (text : List Char) :
    renderPieces names (text.map .char) = .ok text := by
  induction text with
  | nil => rfl
  | cons c cs ih =>
    rw [List.map_cons, renderPieces, ih]
    rfl

/-- The pieces of a part give its text, or its fault. -/
theorem renderPieces_pieces (part : Part) :
    renderPieces names part.pieces =
      match part.fault? names with
      | none => .ok (part.text names).toList
      | some fault => .error fault := by
  cases part with
  | literal text => exact renderPieces_chars names text.toList
  | placeholder name bare =>
    simp only [Part.pieces, Part.fault?, Part.text, renderPieces, Piece.render]
    cases names name with
    | none => rfl
    | some value =>
      cases value with
      | array | object => rfl
      | null | bool | number | string => exact congrArg Except.ok (List.append_nil _)

theorem renderPieces_parts (parts : List Part) :
    renderPieces names (parts.flatMap Part.pieces) =
      match parts.findSome? (Part.fault? names) with
      | none => .ok (parts.flatMap fun part => (part.text names).toList)
      | some fault => .error fault := by
  induction parts with
  | nil => rfl
  | cons part parts ih =>
    rw [List.flatMap_cons, renderPieces_append, renderPieces_pieces, ih, List.findSome?_cons]
    cases part.fault? names with
    | some fault => rfl
    | none => cases parts.findSome? (Part.fault? names) <;> rfl

/-- Rendering a print gives the texts of the parts one after the other, if all of them have a text,
and the fault of the first that has none otherwise. -/
theorem render_print {parts : List Part} (h : ∀ part ∈ parts, part.isWellFormed) :
    render names (print parts) =
      match parts.findSome? (Part.fault? names) with
      | none => .ok (String.join (parts.map (Part.text names)))
      | some fault => .error fault := by
  have hjoin : String.ofList (parts.flatMap fun part => (part.text names).toList) =
      String.join (parts.map (Part.text names)) := by
    apply String.toList_injective
    simp [List.flatMap_def, Function.comp_def]
  rw [render, print, String.toList_ofList, pieces, piecesFrom_print h, renderPieces_parts, ← hjoin]
  cases parts.findSome? (Part.fault? names) <;> rfl

end render

/-- A name without braces before a doubled dollar sign, a value with a dollar sign of its own, and a
name that goes on if it had no braces. -/
theorem render_print_price :
    let names : String → Option Value := fun name =>
      if name = "sum" then some (.string "$sum") else if name = "unit" then some .null else none
    let parts : List Part :=
      [.literal "a$", .placeholder "sum" true, .literal "$\r\n", .placeholder "sum" true,
        .literal "s\x7b", .placeholder "unit" false]
    print parts = "a$$$sum$$\r\n$\x7bsum\x7ds\x7b$\x7bunit\x7d" ∧
      render names (print parts) = .ok "a$$sum$\r\n$sums\x7b" := by
  intro names parts
  have hparts : ∀ part ∈ parts, part.isWellFormed := by decide
  exact ⟨by decide +kernel, (render_print names hparts).trans rfl⟩

end Stencil.Template
