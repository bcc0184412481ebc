import Stencil.Proofs.Source.Declarator
import Stencil.Proofs.Source.Order

/-!
# Jumps among declarations

A line `return x;` or `goto end;` is made of two words, as a declaration is, and neither `return`
nor `goto` is told from the name of a type. So such a line is a declaration if and only if a
declarator stands behind its keyword, and is then sorted as one: it goes in front of the lines of
its run that may not precede it (`exists_jumps_stay_iff`).
-/

namespace Stencil.Source

open Text Declaration

/-- The keywords of the statements that leave the place where they stand. -/
def jumpWords : List (List Char) :=
  ["return", "goto"].map String.toList

/-- A line with the keyword `word` of a jump and `rest` behind it. -/
structure Jumps (line : Line) (word rest : List Char) : Prop where
  keyword : word ∈ jumpWords
  trim_eq : trim line = word ++ rest
  stop : ∀ c, rest.head? = some c → isIdentifierChar c = false

/-- A label with blanks around it and a semicolon. -/
inductive Labelled : List Char → Prop
  | intro {blanks label blanks' : List Char} (hne : blanks ≠ []) (hblanks : blanks.all isBlank)
      (hlabel : isIdentifier label = true) (hblanks' : blanks'.all isBlank) :
    Labelled (blanks ++ (label ++ (blanks' ++ [';'])))

theorem Labelled.declarator {rest : List Char} (h : Labelled rest) : Declarator rest := by
  obtain ⟨hne, hblanks, hlabel, hblanks'⟩ := h
  exact .value hne hblanks (.intro hlabel .nil hblanks' .semicolon)

namespace Jumps

variable {line : Line} {word rest : List Char}

theorem isIdentifier (h : Jumps line word rest) : isIdentifier word = true := by
  have hall : ∀ word ∈ jumpWords, Text.isIdentifier word = true := by decide
  exact hall word h.keyword

/-- The keyword of a jump is none of the words that a declaration begins with. -/
theorem word?_eq_none (h : Jumps line word rest) {words : List (List Char)}
    (hwords : ∀ word ∈ jumpWords, words.contains word = false) :
    word? words (word ++ rest) = none := by
  unfold word?
  rw [identifier?_append h.isIdentifier h.stop]
  simp only [Option.bind_eq_bind, Option.bind_some, hwords word h.keyword, Bool.false_and,
    Bool.false_eq_true, if_false]

theorem isDeclaration_iff (h : Jumps line word rest) :
    isDeclaration line = true ↔ Declarator rest := by
  rw [isDeclaration, parse?, h.trim_eq, parseModifiers?_of_none (h.word?_eq_none (by decide)),
    parseSizes?_of_none (h.word?_eq_none (by decide))]
  exact isSome_parseType?_iff h.isIdentifier h.stop [] []

theorem isInclude (h : Jumps line word rest) : isInclude line = false := by
  have hall : ∀ word ∈ jumpWords, word ≠ [] ∧ word.head? ≠ some '#' := by decide
  obtain ⟨hne, hhead⟩ := hall word h.keyword
  refine isInclude_of_head?_trim ?_
  rwa [h.trim_eq, List.head?_append_of_ne_nil _ hne]

end Jumps

/-- A jump is a declaration exactly if a declarator stands behind its keyword, as one always does
behind `goto`. It stays behind every line before it exactly if each of them in its run may precede
it; so it does if it is no declaration. -/
theorem exists_jumps_stay_iff (lines : List Line) :
    ∃ σ : Fin lines.length ≃ Fin (formatLines lines).length,
      FormatsBy lines (formatLines lines) σ ∧
      ∀ j word rest, Jumps (lines.get j) word rest →
        (isDeclaration (lines.get j) = true ↔ Declarator rest) ∧
        (Labelled rest → isDeclaration (lines.get j) = true) ∧
        ((∀ i, i < j → σ i < σ j) ↔
          ∀ i, i < j → Together lines i j → mayPrecede (lines.get i) (lines.get j) = true) ∧
        (¬Declarator rest → ∀ i, i < j → σ i < σ j) := by
  obtain ⟨σ, h⟩ := exists_formatsBy lines
  refine ⟨σ, h, fun j word rest hjumps => ?_⟩
  have hdeclaration := hjumps.isDeclaration_iff
  have hinclude := hjumps.isInclude
  refine ⟨hdeclaration, fun hlabel => hdeclaration.2 hlabel.declarator, ?_, ?_⟩
  · exact forall₂_congr fun i hij => h.lt_iff i j hij (.inr hinclude)
  · intro hnot i hij
    refine h.lt_of_not_isDeclaration hij ?_ hinclude
    rwa [← Bool.not_eq_true, hdeclaration]

/-- A function that returns a variable. -/
def returningBody : List Line :=
  ["f()", "\x7b", "\tint x = 1;", "\treturn x;", "\x7d"].map String.toList

/-- The value of a variable is returned before the variable is declared. -/
theorem return_precedes_declaration :
    Jumps "\treturn x;".toList "return".toList " x;".toList ∧
      isDeclaration "\treturn x;".toList = true ∧
      formatLines returningBody =
        ["f()", "\x7b", "\treturn x;", "\tint x = 1;", "\x7d"].map String.toList := by
  refine ⟨⟨by decide, by decide, fun c hc => ?_⟩, by decide +kernel, by decide +kernel⟩
  cases hc
  rfl

end Stencil.Source
