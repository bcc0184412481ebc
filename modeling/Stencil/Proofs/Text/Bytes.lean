import Stencil.Text.Identifier

/-!
# Texts as bytes

A text has as many bytes in UTF-8 as its characters have one after the other. A text may be read on
from a byte if a character begins there or the text ends there, which is where a string has a valid
position (`isSome_fromByte?_iff_isValid`); then what is read is what stands behind the characters
that these bytes make up (`fromByte?_eq_some_iff`).
-/

namespace Stencil.Text

/-- The number of bytes of a text in UTF-8. -/
def byteSize (text : List Char) : Nat :=
  (String.ofList text).utf8ByteSize

@[simp] theorem byteSize_nil : byteSize [] = 0 := rfl

@[simp] theorem byteSize_cons (c : Char) (text : List Char) :
    byteSize (c :: text) = c.utf8Size + byteSize text := by
  rw [byteSize, String.ofList_cons, String.utf8ByteSize_append, String.utf8ByteSize_singleton,
    byteSize]

@[simp] theorem byteSize_append (front back : List Char) :
    byteSize (front ++ back) = byteSize front + byteSize back := by
  rw [byteSize, String.ofList_append, String.utf8ByteSize_append, byteSize, byteSize]

/-- A character of ASCII is one byte. -/
theorem byteSize_eq_length {text : List Char} (h : ∀ c ∈ text, c.utf8Size = 1) :
    byteSize text = text.length := by
  induction text with
  | nil => rfl
  | cons c text ih =>
    rw [List.forall_mem_cons] at h
    rw [byteSize_cons, h.1, ih h.2, List.length_cons, Nat.add_comm]

/-- The text from a byte on; none if the byte is behind the end or in the middle of a character. -/
def fromByte? : Nat → List Char → Option (List Char)
  | 0, text => some text
  | _ + 1, [] => none
  | n + 1, c :: text => if c.utf8Size ≤ n + 1 then fromByte? (n + 1 - c.utf8Size) text else none

theorem fromByte?_byteSize_append (front back : List Char) :
    fromByte? (byteSize front) (front ++ back) = some back := by
  induction front with
  | nil => rw [byteSize_nil, List.nil_append, fromByte?]
  | cons c front ih =>
    obtain ⟨n, hn⟩ := Nat.exists_eq_add_one.2 (Nat.add_pos_left c.utf8Size_pos (byteSize front))
    rw [byteSize_cons, hn, List.cons_append, fromByte?, ← hn, if_pos (Nat.le_add_right _ _),
      Nat.add_sub_cancel_left, ih]

theorem fromByte?_eq_some_iff {n : Nat} {text rest : List Char} :
    fromByte? n text = some rest ↔ ∃ front, text = front ++ rest ∧ byteSize front = n := by
  constructor
  · intro h
    fun_induction fromByte? n text with
    | case1 text =>
      cases h
      exact ⟨[], rfl, rfl⟩
    | case2 => cases h
    | case3 n c text hle ih =>
      obtain ⟨front, rfl, hsize⟩ := ih h
      refine ⟨c :: front, rfl, ?_⟩
      rw [byteSize_cons]
      omega
    | case4 => cases h
  · rintro ⟨front, rfl, rfl⟩
    exact fromByte?_byteSize_append front rest

theorem isSome_fromByte?_iff_isValid {n : Nat} {text : List Char} :
    (fromByte? n text).isSome ↔ (String.Pos.Raw.mk n).IsValid (String.ofList text) := by
  rw [String.Pos.Raw.isValid_iff_exists_append, Option.isSome_iff_exists]
  constructor
  · rintro ⟨rest, h⟩
    obtain ⟨front, rfl, rfl⟩ := fromByte?_eq_some_iff.1 h
    exact ⟨String.ofList front, String.ofList rest, String.ofList_append, rfl⟩
  · rintro ⟨front, back, htext, hn⟩
    refine ⟨back.toList, fromByte?_eq_some_iff.2 ⟨front.toList, ?_, ?_⟩⟩
    · rw [← String.toList_append, ← htext, String.toList_ofList]
    · rw [byteSize, String.ofList_toList]
      exact (congrArg String.Pos.Raw.byteIdx hn).symm

/-! ## Characters of ASCII -/

theorem utf8Size_of_isDigit {c : Char} (h : c.isDigit) : c.utf8Size = 1 := by
  rw [Char.utf8Size_eq_one_iff]
  delta Char.isDigit at h
  simp only [Bool.and_eq_true, decide_eq_true_eq, UInt32.le_iff_toNat_le, ge_iff_le,
    Char.reduceVal, UInt32.reduceToNat] at h ⊢
  omega

theorem utf8Size_of_isIdentifierChar {c : Char} (h : isIdentifierChar c) : c.utf8Size = 1 := by
  rw [Char.utf8Size_eq_one_iff]
  delta isIdentifierChar Char.isAlphanum Char.isAlpha Char.isUpper Char.isLower Char.isDigit at h
  simp only [Bool.or_eq_true, Bool.and_eq_true, decide_eq_true_eq, UInt32.le_iff_toNat_le,
    ge_iff_le, Char.reduceVal, UInt32.reduceToNat] at h ⊢
  obtain ((h | h) | h) | rfl := h
  · omega
  · omega
  · omega
  · decide

end Stencil.Text
