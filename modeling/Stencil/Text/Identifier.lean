/-!
# Identifiers and digits

An identifier is a letter or underscore followed by letters, digits and underscores, all of ASCII.
Main statements: the longest identifier at the start of a text and what follows it make up the text
(`append_of_identifier?`), what is found is an identifier (`isIdentifier_of_identifier?`), and an
identifier before anything that does not go on with it is found (`identifier?_append`).
-/

namespace Stencil.Text

/-- Whether an identifier may begin with `c`. -/
def isIdentifierStart (c : Char) : Bool :=
  c.isAlpha || c = '_'

/-- Whether an identifier may go on with `c`. -/
def isIdentifierChar (c : Char) : Bool :=
  c.isAlphanum || c = '_'

/-- Whether the whole text is an identifier. -/
def isIdentifier : List Char → Bool
  | [] => false
  | c :: cs => isIdentifierStart c && cs.all isIdentifierChar

/-- The longest identifier at the start of the text, and what follows it. -/
def identifier? : List Char → Option (List Char × List Char)
  | [] => none
  | c :: cs =>
    if isIdentifierStart c then
      some (c :: cs.takeWhile isIdentifierChar, cs.dropWhile isIdentifierChar)
    else none

/-- The value of a decimal digit. -/
def digitValue (c : Char) : Nat :=
  c.toNat - '0'.toNat

/-- The number that decimal digits stand for. -/
def digitsValue (digits : List Char) : Nat :=
  digits.foldl (fun n c => 10 * n + digitValue c) 0

theorem append_of_identifier? {text name rest : List Char}
    (h : identifier? text = some (name, rest)) : name ++ rest = text := by
  cases text with
  | nil => simp [identifier?] at h
  | cons c cs =>
    by_cases hc : isIdentifierStart c <;> simp [identifier?, hc] at h
    simp [← h.1, ← h.2, List.takeWhile_append_dropWhile]

/-- What is found at the start of a text is an identifier. -/
theorem isIdentifier_of_identifier? {text name rest : List Char}
    (h : identifier? text = some (name, rest)) : isIdentifier name = true := by
  cases text with
  | nil => cases h
  | cons c cs =>
    cases hc : isIdentifierStart c with
    | false => simp [identifier?, hc] at h
    | true =>
      simp only [identifier?, hc, if_true, Option.some.injEq, Prod.mk.injEq] at h
      rw [← h.1, isIdentifier, hc, Bool.true_and, List.all_takeWhile]

theorem length_of_identifier? {text name rest : List Char}
    (h : identifier? text = some (name, rest)) : rest.length < text.length := by
  cases text with
  | nil => simp [identifier?] at h
  | cons c cs =>
    by_cases hc : isIdentifierStart c <;> simp [identifier?, hc] at h
    rw [← h.2]
    exact Nat.lt_succ_of_le (List.dropWhile_sublist _).length_le

theorem isDigit_of_isIdentifierStart {c : Char} (h : isIdentifierStart c) : c.isDigit = false := by
  rw [Bool.eq_false_iff]
  intro hdigit
  delta isIdentifierStart Char.isAlpha Char.isUpper Char.isLower at h
  delta Char.isDigit at hdigit
  simp only [Bool.or_eq_true, Bool.and_eq_true, decide_eq_true_eq, UInt32.le_iff_toNat_le,
    ge_iff_le, Char.reduceVal, UInt32.reduceToNat] at h hdigit
  obtain (h | h) | rfl := h
  · omega
  · omega
  · revert hdigit
    decide

/-- Characters of a kind end where the first of another kind stands. -/
theorem takeWhile_append_of_stop {p : Char → Bool} {text rest : List Char} (h : text.all p)
    (hstop : ∀ c, rest.head? = some c → p c = false) :
    (text ++ rest).takeWhile p = text ∧ (text ++ rest).dropWhile p = rest := by
  rw [List.all_eq_true] at h
  rw [List.takeWhile_append_of_pos h, List.dropWhile_append_of_pos h]
  cases rest with
  | nil => simp
  | cons c cs => simp [hstop c rfl]

theorem identifier?_append {name rest : List Char} (h : isIdentifier name)
    (hstop : ∀ c, rest.head? = some c → isIdentifierChar c = false) :
    identifier? (name ++ rest) = some (name, rest) := by
  cases name with
  | nil => cases h
  | cons c cs =>
    obtain ⟨hc, hcs⟩ := Bool.and_eq_true_iff.1 h
    obtain ⟨htake, hdrop⟩ := takeWhile_append_of_stop hcs hstop
    simp only [List.cons_append, identifier?, hc, htake, hdrop, if_true]

end Stencil.Text
