/-!
# Blank characters

The characters of Unicode's `White_Space` property, and the three ways to trim them off a text.
`White_Space` is wider than the six characters of `Char.isWhitespace`: a no-break space (`U+00A0`)
is blank here.

Main statements: trimming at the end leaves a text that does not end in a blank
(`not_isBlank_of_getLast?_trimEnd`), and takes nothing but blanks away (`trimEnd_append`).
-/

namespace Stencil.Text

/-- The ranges of the property `White_Space`, first and last code point included. -/
def blankRanges : List (Nat × Nat) :=
  [(0x09, 0x0D), (0x20, 0x20), (0x85, 0x85), (0xA0, 0xA0), (0x1680, 0x1680), (0x2000, 0x200A),
    (0x2028, 0x2029), (0x202F, 0x202F), (0x205F, 0x205F), (0x3000, 0x3000)]

/-- Whether `c` has the property `White_Space`. -/
def isBlank (c : Char) : Bool :=
  blankRanges.any fun range => range.1 ≤ c.toNat && c.toNat ≤ range.2

/-- `text` without the blanks at its start. -/
def trimStart (text : List Char) : List Char :=
  text.dropWhile isBlank

/-- `text` without the blanks at its end. -/
def trimEnd : List Char → List Char
  | [] => []
  | c :: cs =>
    match trimEnd cs with
    | [] => if isBlank c then [] else [c]
    | d :: ds => c :: d :: ds

/-- `text` without the blanks at either end. -/
def trim (text : List Char) : List Char :=
  trimEnd (trimStart text)

/-- Whether `text` holds no character but blanks. -/
def isBlankText (text : List Char) : Bool :=
  text.all isBlank

@[simp] theorem trimEnd_nil : trimEnd [] = [] := rfl

/-- What `trimEnd` takes away is blank. -/
theorem trimEnd_append (text : List Char) :
    ∃ blanks, text = trimEnd text ++ blanks ∧ blanks.all isBlank := by
  induction text with
  | nil => exact ⟨[], rfl, rfl⟩
  | cons c cs ih =>
    obtain ⟨blanks, h, hb⟩ := ih
    cases ht : trimEnd cs with
    | nil =>
      rw [ht, List.nil_append] at h
      subst h
      by_cases hc : isBlank c
      · exact ⟨c :: cs, by simp [trimEnd, ht, hc], by simp [hc, hb]⟩
      · exact ⟨cs, by simp [trimEnd, ht, hc], hb⟩
    | cons d ds =>
      refine ⟨blanks, ?_, hb⟩
      conv => lhs; rw [h, ht]
      simp [trimEnd, ht]

/-- A trimmed text does not end in a blank. -/
theorem not_isBlank_of_getLast?_trimEnd {text : List Char} {c : Char}
    (h : (trimEnd text).getLast? = some c) : isBlank c = false := by
  induction text with
  | nil => simp at h
  | cons d ds ih =>
    cases ht : trimEnd ds with
    | nil =>
      by_cases hd : isBlank d <;> simp [trimEnd, ht, hd] at h
      subst h
      simpa using hd
    | cons e es =>
      refine ih ?_
      simpa [trimEnd, ht, List.getLast?_cons_cons] using h

end Stencil.Text
