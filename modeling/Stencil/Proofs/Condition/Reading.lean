import Stencil.Condition.Expression.Parser
import Stencil.Proofs.Results

/-!
# What the readers of conditions read

Each reader is described by one equation for each way in which its tokens may begin: what it reads
first, and what it goes on with. The equations are about `parts`, which forgets how many tokens
there were, so that they are equations between plain values.
-/

namespace Stencil.Condition

/-! ## The tokens of words and signs -/

/-- The token of a literal. -/
def Literal.token : Literal → Token
  | .none => .none
  | .bool true => .true
  | .bool false => .false
  | .integer value => .integer value
  | .string text => .string text

/-- The tokens of a comparison sign. -/
def Comparison.tokens : Comparison → List Token
  | .equal => [.equal]
  | .notEqual => [.notEqual]
  | .member => [.in]
  | .notMember => [.not, .in]

/-- The tokens of attributes, each with its dot before it. -/
def attributeTokens (attributes : List String) : List Token :=
  attributes.flatMap fun word => [.dot, .name word]

/-! ## Readers -/

section parts

variable {α : Type} {bound : Nat}

/-- What is read and what follows it, no matter how much. -/
def parts (result : Except SyntaxFault (Parsed α bound)) : Except SyntaxFault (α × List Token) :=
  result.map fun parsed => (parsed.value, parsed.rest)

theorem length_lt_of_parts {result : Except SyntaxFault (Parsed α bound)} {value : α}
    {rest : List Token} (h : parts result = .ok (value, rest)) : rest.length < bound := by
  cases result with
  | error fault => cases h
  | ok parsed =>
    cases h
    exact parsed.shorter

end parts

theorem parts_attributes_dot (word : String) (tokens : List Token) :
    parts (attributes (.dot :: .name word :: tokens)) =
      parts (attributes tokens) >>= fun read => .ok (word :: read.1, read.2) := by
  rw [attributes]
  cases attributes tokens <;> rfl

theorem parts_attributes_of_ne {tokens : List Token} (h : tokens.head? ≠ some .dot) :
    parts (attributes tokens) = .ok ([], tokens) := by
  unfold attributes
  split
  · exact absurd rfl h
  · exact absurd rfl h
  · rfl

theorem parts_disjunction (tokens : List Token) :
    parts (disjunction tokens) =
      parts (conjunction tokens) >>= fun read => parts (disjunctionTail read.1 read.2) := by
  rw [disjunction]
  cases conjunction tokens with
  | error fault => rfl
  | ok left =>
    show _ = parts (disjunctionTail left.value left.rest)
    dsimp only
    cases disjunctionTail left.value left.rest <;> rfl

theorem parts_disjunctionTail_or (left : Expression) (tokens : List Token) :
    parts (disjunctionTail left (.or :: tokens)) =
      parts (conjunction tokens) >>= fun read =>
        parts (disjunctionTail (.or left read.1) read.2) := by
  rw [disjunctionTail]
  cases conjunction tokens with
  | error fault => rfl
  | ok right =>
    show _ = parts (disjunctionTail (.or left right.value) right.rest)
    dsimp only
    cases disjunctionTail (.or left right.value) right.rest <;> rfl

theorem parts_disjunctionTail_of_ne (left : Expression) {tokens : List Token}
    (h : tokens.head? ≠ some .or) : parts (disjunctionTail left tokens) = .ok (left, tokens) := by
  unfold disjunctionTail
  split
  · exact absurd rfl h
  · rfl

theorem parts_conjunction (tokens : List Token) :
    parts (conjunction tokens) =
      parts (negation tokens) >>= fun read => parts (conjunctionTail read.1 read.2) := by
  rw [conjunction]
  cases negation tokens with
  | error fault => rfl
  | ok left =>
    show _ = parts (conjunctionTail left.value left.rest)
    dsimp only
    cases conjunctionTail left.value left.rest <;> rfl

theorem parts_conjunctionTail_and (left : Expression) (tokens : List Token) :
    parts (conjunctionTail left (.and :: tokens)) =
      parts (negation tokens) >>= fun read =>
        parts (conjunctionTail (.and left read.1) read.2) := by
  rw [conjunctionTail]
  cases negation tokens with
  | error fault => rfl
  | ok right =>
    show _ = parts (conjunctionTail (.and left right.value) right.rest)
    dsimp only
    cases conjunctionTail (.and left right.value) right.rest <;> rfl

theorem parts_conjunctionTail_of_ne (left : Expression) {tokens : List Token}
    (h : tokens.head? ≠ some .and) : parts (conjunctionTail left tokens) = .ok (left, tokens) := by
  unfold conjunctionTail
  split
  · exact absurd rfl h
  · rfl

theorem parts_negation_not (tokens : List Token) :
    parts (negation (.not :: tokens)) =
      parts (negation tokens) >>= fun read => .ok (.not read.1, read.2) := by
  rw [negation]
  cases negation tokens <;> rfl

theorem parts_negation_of_ne {tokens : List Token} (h : tokens.head? ≠ some .not) :
    parts (negation tokens) = parts (comparison tokens) := by
  rw [negation.eq_def]
  split
  · exact absurd rfl h
  · rfl

/-- The sign at the start of the tokens and what follows it, if they begin with one. -/
theorem comparison?_eq_ok {tokens : List Token} {sign : Option (Parsed Comparison tokens.length)}
    (h : comparison? tokens = .ok sign) :
    match sign with
    | some sign => tokens = sign.value.tokens ++ sign.rest
    | none => True := by
  unfold comparison? at h
  split at h <;> cases h <;> first | rfl | trivial

theorem comparison?_tokens (sign : Comparison) (tokens : List Token) :
    ∃ shorter, comparison? (sign.tokens ++ tokens) = .ok (some ⟨sign, tokens, shorter⟩) := by
  cases sign <;> exact ⟨_, rfl⟩

/-- What a comparison is after its left operand. -/
def comparisonAfter (left : Expression × List Token) :
    Except SyntaxFault (Expression × List Token) :=
  match comparison? left.2 with
  | .error fault => .error fault
  | .ok none => .ok left
  | .ok (some sign) =>
    parts (operand sign.rest) >>= fun right =>
      .ok (.compare sign.value left.1 right.1, right.2)

theorem parts_comparison (tokens : List Token) :
    parts (comparison tokens) = parts (operand tokens) >>= comparisonAfter := by
  rw [comparison]
  cases operand tokens with
  | error fault => rfl
  | ok left =>
    show _ = comparisonAfter (left.value, left.rest)
    unfold comparisonAfter
    dsimp only
    cases comparison? left.rest with
    | error fault => rfl
    | ok sign =>
      cases sign with
      | none => rfl
      | some sign =>
        dsimp only
        cases operand sign.rest <;> rfl

theorem parts_operand_literal (literal : Literal) (tokens : List Token) :
    parts (operand (literal.token :: tokens)) = .ok (.literal literal, tokens) := by
  rw [operand.eq_def]
  cases literal with
  | bool value => cases value <;> rfl
  | none | integer | string => rfl

theorem parts_operand_name (name : String) (tokens : List Token) :
    parts (operand (.name name :: tokens)) =
      parts (attributes tokens) >>= fun read => .ok (.name (name :: read.1), read.2) := by
  rw [operand]
  cases attributes tokens <;> rfl

/-- What an expression in parentheses is after what stands in them. -/
def closeParenthesis (inner : Expression × List Token) :
    Except SyntaxFault (Expression × List Token) :=
  match inner.2 with
  | .rightParenthesis :: after => .ok (inner.1, after)
  | after => .error (.expected (some .rightParenthesis) after.head?)

theorem parts_operand_parenthesis (tokens : List Token) :
    parts (operand (.leftParenthesis :: tokens)) =
      parts (disjunction tokens) >>= closeParenthesis := by
  rw [operand]
  cases disjunction tokens with
  | error fault => rfl
  | ok inner =>
    obtain ⟨value, rest, shorter⟩ := inner
    show _ = closeParenthesis (value, rest)
    unfold closeParenthesis
    dsimp only
    split
    · rfl
    · next hclose =>
      split
      · next after => exact absurd rfl (hclose after)
      · rfl

theorem parts_operand_bracket (tokens : List Token) :
    parts (operand (.leftBracket :: tokens)) =
      parts (items tokens) >>= fun read => .ok (.list read.1, read.2) := by
  rw [operand]
  cases items tokens <;> rfl

theorem parts_items_bracket (tokens : List Token) :
    parts (items (.rightBracket :: tokens)) = .ok ([], tokens) := by
  rw [items]
  rfl

/-- What the items of a list are after the first. -/
def itemsAfter (item : Expression × List Token) :
    Except SyntaxFault (List Expression × List Token) :=
  match item.2 with
  | .rightBracket :: after => .ok ([item.1], after)
  | .comma :: after => parts (items after) >>= fun more => .ok (item.1 :: more.1, more.2)
  | after => .error (.expected (some .comma) after.head?)

theorem parts_items_of_ne {tokens : List Token} (h : tokens.head? ≠ some .rightBracket) :
    parts (items tokens) = parts (operand tokens) >>= itemsAfter := by
  rw [items.eq_def]
  split
  · exact absurd rfl h
  · cases operand tokens with
    | error fault => rfl
    | ok item =>
      obtain ⟨value, rest, shorter⟩ := item
      show _ = itemsAfter (value, rest)
      unfold itemsAfter
      dsimp only
      split
      · rfl
      · next after =>
        dsimp only
        cases items after <;> rfl
      · next hclose hcomma =>
        split
        · next after => exact absurd rfl (hclose after)
        · next after => exact absurd rfl (hcomma after)
        · rfl

end Stencil.Condition
