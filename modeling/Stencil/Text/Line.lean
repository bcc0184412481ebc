import Stencil.Text.Blank

/-!
# Lines of a text

`lines` reads a text as lines that end in a line feed, with or without a carriage return before
it; `cut` cuts a text at every place of a character and nothing else. Main statements: joining the
pieces with that character gives the text back (`join_cut`), and no piece holds that character
(`not_mem_of_mem_cut`).
-/

namespace Stencil.Text

/-- The lines of a text. A line ends at a line feed; one carriage return before it belongs to the
line end. The text after the last line feed is a line only if it is not empty. -/
def lines : List Char → List (List Char)
  | [] => []
  | '\n' :: cs => [] :: lines cs
  | '\r' :: '\n' :: cs => [] :: lines cs
  | c :: cs =>
    match lines cs with
    | [] => [[c]]
    | l :: ls => (c :: l) :: ls

/-- The pieces of a text between the places of a character, the empty ones included. -/
def cut (separator : Char) : List Char → List (List Char)
  | [] => [[]]
  | c :: cs =>
    if c = separator then [] :: cut separator cs
    else
      match cut separator cs with
      | [] => [[c]]
      | p :: ps => (c :: p) :: ps

/-- The texts of `parts` one after the other, with `separator` between each two. -/
def join (separator : List Char) : List (List Char) → List Char
  | [] => []
  | [part] => part
  | part :: parts => part ++ separator ++ join separator parts

/-- Whether `pattern` stands somewhere in the text. -/
def occursIn (pattern : List Char) : List Char → Bool
  | [] => pattern.isEmpty
  | c :: cs => pattern.isPrefixOf (c :: cs) || occursIn pattern cs

theorem cut_ne_nil (separator : Char) (text : List Char) : cut separator text ≠ [] := by
  cases text with
  | nil => simp [cut]
  | cons c cs =>
    unfold cut
    split
    · simp
    · split <;> simp

theorem cut_append_separator (separator : Char) (before after : List Char) :
    cut separator (before ++ separator :: after) = cut separator before ++ cut separator after := by
  induction before with
  | nil => simp [cut]
  | cons c before ih =>
    rw [List.cons_append, cut, cut]
    split
    · rw [ih, List.cons_append]
    · rw [ih]
      cases hbefore : cut separator before with
      | nil => exact absurd hbefore (cut_ne_nil separator before)
      | cons part parts => rfl

theorem cut_of_not_mem {separator : Char} {text : List Char} (h : separator ∉ text) :
    cut separator text = [text] := by
  induction text with
  | nil => rfl
  | cons c text ih =>
    rw [List.mem_cons, not_or] at h
    rw [cut, if_neg (Ne.symm h.1), ih h.2]

theorem not_mem_of_mem_cut {separator : Char} {text : List Char} :
    ∀ part ∈ cut separator text, separator ∉ part := by
  induction text with
  | nil => simp [cut]
  | cons c text ih =>
    rw [cut]
    split
    · rw [List.forall_mem_cons]
      exact ⟨List.not_mem_nil, ih⟩
    · next hc =>
      cases hcut : cut separator text with
      | nil => exact absurd hcut (cut_ne_nil separator text)
      | cons part parts =>
        rw [hcut, List.forall_mem_cons] at ih
        rw [List.forall_mem_cons, List.mem_cons, not_or]
        exact ⟨⟨Ne.symm hc, ih.1⟩, ih.2⟩

/-- Cutting a text at the places of a character loses nothing. -/
theorem join_cut (separator : Char) (text : List Char) :
    join [separator] (cut separator text) = text := by
  induction text with
  | nil => rfl
  | cons c cs ih =>
    cases hp : cut separator cs with
    | nil => exact absurd hp (cut_ne_nil separator cs)
    | cons p ps =>
      rw [hp] at ih
      by_cases hc : c = separator
      · simp [cut, hc, hp, join, ih]
      · cases ps with
        | nil => simpa [cut, hc, hp, join] using ih
        | cons q qs => simpa [cut, hc, hp, join] using ih

end Stencil.Text
