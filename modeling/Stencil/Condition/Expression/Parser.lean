import Stencil.Condition.Expression
import Stencil.Condition.Token

/-!
# Reading expressions

An expression is read from its tokens by the levels of its grammar: `or` binds weakest, then `and`,
then `not`, then the comparisons, which do not chain. The connectives group to the left. Parentheses
leave no trace.

Every reader gives out what follows the part that it has read, and that this is shorter than what it
was given (`Parsed`). So the readers may call each other, and all of them come to an end.
-/

namespace Stencil.Condition

/-- A part that was read from fewer than `bound` tokens, and what follows it. -/
structure Parsed (α : Type) (bound : Nat) where
  /-- The part. -/
  value : α
  /-- The tokens after it. -/
  rest : List Token
  /-- There are fewer than `bound` tokens after it. -/
  shorter : rest.length < bound

namespace Parsed

variable {α β : Type} {bound wider : Nat}

/-- The same part, read from more tokens. -/
def widen (parsed : Parsed α bound) (h : bound ≤ wider) : Parsed α wider :=
  { parsed with shorter := Nat.lt_of_lt_of_le parsed.shorter h }

/-- Another part in the place of this one. -/
def map (f : α → β) (parsed : Parsed α bound) : Parsed β bound :=
  { value := f parsed.value, rest := parsed.rest, shorter := parsed.shorter }

end Parsed

/-- The attributes after a name, each with its dot before it. -/
def attributes (tokens : List Token) :
    Except SyntaxFault (Parsed (List String) (tokens.length + 1)) :=
  match tokens with
  | .dot :: .name word :: rest =>
    match attributes rest with
    | .ok parsed =>
      .ok ((parsed.map (word :: ·)).widen (by simp only [List.length_cons]; omega))
    | .error fault => .error fault
  | .dot :: rest => .error (.attribute rest.head?)
  | rest => .ok ⟨[], rest, Nat.lt_succ_self _⟩

/-- The comparison at the start of the tokens, if there is one. -/
def comparison? (tokens : List Token) :
    Except SyntaxFault (Option (Parsed Comparison tokens.length)) :=
  match tokens with
  | .equal :: rest => .ok (some ⟨.equal, rest, Nat.lt_succ_self _⟩)
  | .notEqual :: rest => .ok (some ⟨.notEqual, rest, Nat.lt_succ_self _⟩)
  | .in :: rest => .ok (some ⟨.member, rest, Nat.lt_succ_self _⟩)
  | .not :: .in :: rest =>
    .ok (some ⟨.notMember, rest, by simp only [List.length_cons]; omega⟩)
  | .not :: _ => .error .loneNot
  | _ => .ok none

mutual

/-- Conjunctions with `or` between them. -/
def disjunction (tokens : List Token) : Except SyntaxFault (Parsed Expression tokens.length) :=
  match conjunction tokens with
  | .error fault => .error fault
  | .ok left =>
    match disjunctionTail left.value left.rest with
    | .error fault => .error fault
    | .ok parsed => .ok (parsed.widen left.shorter)
termination_by 8 * tokens.length + 4
decreasing_by
  · omega
  · have := left.shorter; omega

/-- The rest of a disjunction, after its part `left`. -/
def disjunctionTail (left : Expression) (tokens : List Token) :
    Except SyntaxFault (Parsed Expression (tokens.length + 1)) :=
  match tokens with
  | .or :: rest =>
    match conjunction rest with
    | .error fault => .error fault
    | .ok right =>
      match disjunctionTail (.or left right.value) right.rest with
      | .error fault => .error fault
      | .ok parsed =>
        .ok (parsed.widen (by have := right.shorter; simp only [List.length_cons]; omega))
  | rest => .ok ⟨left, rest, Nat.lt_succ_self _⟩
termination_by 8 * tokens.length
decreasing_by
  · simp only [List.length_cons]; omega
  · have := right.shorter; simp only [List.length_cons]; omega

/-- Negations with `and` between them. -/
def conjunction (tokens : List Token) : Except SyntaxFault (Parsed Expression tokens.length) :=
  match negation tokens with
  | .error fault => .error fault
  | .ok left =>
    match conjunctionTail left.value left.rest with
    | .error fault => .error fault
    | .ok parsed => .ok (parsed.widen left.shorter)
termination_by 8 * tokens.length + 3
decreasing_by
  · omega
  · have := left.shorter; omega

/-- The rest of a conjunction, after its part `left`. -/
def conjunctionTail (left : Expression) (tokens : List Token) :
    Except SyntaxFault (Parsed Expression (tokens.length + 1)) :=
  match tokens with
  | .and :: rest =>
    match negation rest with
    | .error fault => .error fault
    | .ok right =>
      match conjunctionTail (.and left right.value) right.rest with
      | .error fault => .error fault
      | .ok parsed =>
        .ok (parsed.widen (by have := right.shorter; simp only [List.length_cons]; omega))
  | rest => .ok ⟨left, rest, Nat.lt_succ_self _⟩
termination_by 8 * tokens.length
decreasing_by
  · simp only [List.length_cons]; omega
  · have := right.shorter; simp only [List.length_cons]; omega

/-- A comparison, with any number of `not` before it. -/
def negation (tokens : List Token) : Except SyntaxFault (Parsed Expression tokens.length) :=
  match tokens with
  | .not :: rest =>
    match negation rest with
    | .error fault => .error fault
    | .ok inner => .ok ((inner.map .not).widen (Nat.le_succ _))
  | rest => comparison rest
termination_by 8 * tokens.length + 2
decreasing_by
  · simp only [List.length_cons]; omega
  · omega

/-- An operand, or two with a comparison between them. -/
def comparison (tokens : List Token) : Except SyntaxFault (Parsed Expression tokens.length) :=
  match operand tokens with
  | .error fault => .error fault
  | .ok left =>
    match comparison? left.rest with
    | .error fault => .error fault
    | .ok none => .ok left
    | .ok (some sign) =>
      match operand sign.rest with
      | .error fault => .error fault
      | .ok right =>
        .ok ((right.map (.compare sign.value left.value)).widen
          (by have := left.shorter; have := sign.shorter; omega))
termination_by 8 * tokens.length + 1
decreasing_by
  · omega
  · have := left.shorter; have := sign.shorter; omega

/-- A literal, a name, a list, or an expression in parentheses. -/
def operand (tokens : List Token) : Except SyntaxFault (Parsed Expression tokens.length) :=
  match tokens with
  | .string text :: rest => .ok ⟨.literal (.string text), rest, Nat.lt_succ_self _⟩
  | .integer value :: rest => .ok ⟨.literal (.integer value), rest, Nat.lt_succ_self _⟩
  | .true :: rest => .ok ⟨.literal (.bool true), rest, Nat.lt_succ_self _⟩
  | .false :: rest => .ok ⟨.literal (.bool false), rest, Nat.lt_succ_self _⟩
  | .none :: rest => .ok ⟨.literal .none, rest, Nat.lt_succ_self _⟩
  | .name name :: rest =>
    match attributes rest with
    | .error fault => .error fault
    | .ok parsed => .ok (parsed.map fun words => .name (name :: words))
  | .leftParenthesis :: rest =>
    match disjunction rest with
    | .error fault => .error fault
    | .ok inner =>
      match h : inner.rest with
      | .rightParenthesis :: after =>
        .ok ⟨inner.value, after, by
          have := inner.shorter; simp only [h, List.length_cons] at this ⊢; omega⟩
      | after => .error (.expected (some .rightParenthesis) after.head?)
  | .leftBracket :: rest =>
    match items rest with
    | .error fault => .error fault
    | .ok parsed => .ok ((parsed.map .list).widen (Nat.le_succ _))
  | rest => .error (.unexpected rest.head?)
termination_by 8 * tokens.length
decreasing_by
  · simp only [List.length_cons]; omega
  · simp only [List.length_cons]; omega

/-- The items of a list up to and with its closing bracket, with commas between them and perhaps one
after the last. -/
def items (tokens : List Token) : Except SyntaxFault (Parsed (List Expression) tokens.length) :=
  match tokens with
  | .rightBracket :: rest => .ok ⟨[], rest, Nat.lt_succ_self _⟩
  | rest =>
    match operand rest with
    | .error fault => .error fault
    | .ok item =>
      match h : item.rest with
      | .rightBracket :: after =>
        .ok ⟨[item.value], after, by
          have := item.shorter; simp only [h, List.length_cons] at this; omega⟩
      | .comma :: after =>
        match items after with
        | .error fault => .error fault
        | .ok parsed =>
          .ok ((parsed.map (item.value :: ·)).widen (by
            have := item.shorter; simp only [h, List.length_cons] at this; omega))
      | after => .error (.expected (some .comma) after.head?)
termination_by 8 * tokens.length + 1
decreasing_by
  · omega
  · have := item.shorter; simp only [h, List.length_cons] at this; omega

end

/-- The expression that the tokens are. -/
def Expression.ofTokens (tokens : List Token) : Except SyntaxFault Expression :=
  match disjunction tokens with
  | .error fault => .error fault
  | .ok ⟨expression, [], _⟩ => .ok expression
  | .ok ⟨_, rest, _⟩ => .error (.expected none rest.head?)

end Stencil.Condition
