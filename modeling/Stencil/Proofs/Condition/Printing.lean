import Mathlib.Logic.Function.Iterate
import Stencil.Condition
import Stencil.Proofs.Condition.Grammar
import Stencil.Proofs.Condition.Spelling

/-!
# Printing conditions

An expression is printed as the tokens that it consists of, with parentheses around a part only if
the part binds weaker than its place wants. What a text is read as is well formed, and every
well-formed expression is what its print is read as (`parse_print_wellFormed`).

The tokens of an expression derive it at its own level (`derives_tokens`), and an expression derives
at every level that binds weaker (`Derives.loosen`), so the parentheses are all that the grammar
needs.
-/

namespace Stencil.Condition

/-! ## Well-formed expressions -/

/-- The integers have 64 bits. -/
def Literal.WellFormed : Literal → Prop
  | .integer value => IsInteger value
  | _ => True

/-- The names are words that can be names, at least one word each, and the integers have 64 bits. -/
inductive Expression.WellFormed : Expression → Prop
  | literal {literal : Literal} (h : literal.WellFormed) : WellFormed (.literal literal)
  | name {path : List String} (hne : path ≠ []) (h : ∀ word ∈ path, isName word) :
      WellFormed (.name path)
  | list {items : List Expression} (h : ∀ item ∈ items, WellFormed item) : WellFormed (.list items)
  | not {inner : Expression} (h : WellFormed inner) : WellFormed (.not inner)
  | and {left right : Expression} (hleft : WellFormed left) (hright : WellFormed right) :
      WellFormed (.and left right)
  | or {left right : Expression} (hleft : WellFormed left) (hright : WellFormed right) :
      WellFormed (.or left right)
  | compare {sign : Comparison} {left right : Expression} (hleft : WellFormed left)
      (hright : WellFormed right) : WellFormed (.compare sign left right)

theorem mem_attributeTokens {words : List String} {token : Token} :
    token ∈ attributeTokens words ↔ ∃ word ∈ words, token = .dot ∨ token = .name word := by
  simp [attributeTokens]

/-- Well-formed tokens derive well-formed expressions. -/
theorem Derives.wellFormed {level : Level} {ts : List Token} {e : Expression}
    (h : Derives level ts e) (hts : ∀ token ∈ ts, token.WellFormed) : e.WellFormed := by
  induction h with
  | disjunction _ ih | conjunction _ ih | negation _ ih | comparison _ ih => exact ih hts
  | or _ _ ihleft ihright =>
    rw [List.forall_mem_append, List.forall_mem_cons] at hts
    exact .or (ihleft hts.1) (ihright hts.2.2)
  | and _ _ ihleft ihright =>
    rw [List.forall_mem_append, List.forall_mem_cons] at hts
    exact .and (ihleft hts.1) (ihright hts.2.2)
  | not _ ih => exact .not (ih (List.forall_mem_cons.1 hts).2)
  | compare sign _ _ ihleft ihright =>
    rw [List.forall_mem_append, List.forall_mem_append] at hts
    exact .compare (ihleft hts.1) (ihright hts.2.2)
  | literal literal =>
    refine .literal ?_
    cases literal with
    | integer value => exact hts (.integer value) List.mem_cons_self
    | none | bool | string => trivial
  | name name words =>
    refine .name (List.cons_ne_nil _ _) fun word hword => ?_
    obtain rfl | hword := List.mem_cons.1 hword
    · exact hts (.name word) List.mem_cons_self
    · exact hts (.name word)
        (List.mem_cons_of_mem _ (mem_attributeTokens.2 ⟨word, hword, .inr rfl⟩))
  | parentheses _ ih => 
    rw [List.forall_mem_cons, List.forall_mem_append] at hts
    exact ih hts.2.1
  | emptyList => exact .list (by simp)
  | list _ ih =>
    rw [List.forall_mem_cons, List.forall_mem_append] at hts
    exact ih hts.2.1
  | lastItem _ ih => exact .list (by simpa using ih hts)
  | lastComma _ ih =>
    rw [List.forall_mem_append] at hts
    exact .list (by simpa using ih hts.1)
  | moreItems _ _ ih ihmore =>
    rw [List.forall_mem_append, List.forall_mem_cons] at hts
    refine .list (List.forall_mem_cons.2 ⟨ih hts.1, ?_⟩)
    cases ihmore hts.2.2 with
    | list hitems => exact hitems

/-! ## Levels -/

/-- How tightly a level binds. -/
def Level.rank : Level → Nat
  | .disjunction => 0
  | .conjunction => 1
  | .negation => 2
  | .comparison => 3
  | .operand => 4
  | .items => 5

/-- The level that binds next weaker. -/
def Level.looser : Level → Level
  | .operand => .comparison
  | .comparison => .negation
  | .negation => .conjunction
  | .conjunction => .disjunction
  | .disjunction => .disjunction
  | .items => .items

theorem Level.looser_iterate {level weaker : Level} (h : weaker.rank ≤ level.rank)
    (hne : level ≠ .items) : Level.looser^[level.rank - weaker.rank] level = weaker := by
  cases level <;> cases weaker <;> first | rfl | exact absurd rfl hne | exact absurd h (by decide)

theorem Derives.looser {level : Level} {ts : List Token} {e : Expression}
    (h : Derives level ts e) : Derives level.looser ts e := by
  cases level with
  | operand => exact .comparison h
  | comparison => exact .negation h
  | negation => exact .conjunction h
  | conjunction => exact .disjunction h
  | disjunction | items => exact h

/-- What is derived at a level is derived at every level that binds weaker. -/
theorem Derives.loosen {level weaker : Level} {ts : List Token} {e : Expression}
    (h : Derives level ts e) (hrank : weaker.rank ≤ level.rank) (hne : level ≠ .items) :
    Derives weaker ts e := by
  rw [← Level.looser_iterate hrank hne]
  generalize level.rank - weaker.rank = n
  induction n with
  | zero => exact h
  | succ n ih =>
    rw [Function.iterate_succ_apply']
    exact ih.looser

/-! ## Printing -/

/-- The level at which the grammar makes an expression. -/
def Expression.level : Expression → Level
  | .or .. => .disjunction
  | .and .. => .conjunction
  | .not .. => .negation
  | .compare .. => .comparison
  | .literal .. | .name .. | .list .. => .operand

/-- The tokens of an expression at a place that wants a level, in parentheses if the expression
binds weaker than that. -/
def grouped (level : Level) (e : Expression) (ts : List Token) : List Token :=
  if e.level.rank < level.rank then .leftParenthesis :: (ts ++ [.rightParenthesis]) else ts

/-- The tokens of a name, with a dot between its words. -/
def nameTokens : List String → List Token
  | [] => []
  | name :: attributes => .name name :: attributeTokens attributes

mutual

/-- The tokens of an expression. -/
def Expression.tokens : Expression → List Token
  | .literal literal => [literal.token]
  | .name path => nameTokens path
  | .list items =>
    .leftBracket :: ([.comma].intercalate (itemTokens items) ++ [.rightBracket])
  | .not inner => .not :: grouped .negation inner inner.tokens
  | .and left right =>
    grouped .conjunction left left.tokens ++ .and :: grouped .negation right right.tokens
  | .or left right =>
    grouped .disjunction left left.tokens ++ .or :: grouped .conjunction right right.tokens
  | .compare sign left right =>
    grouped .operand left left.tokens ++ (sign.tokens ++ grouped .operand right right.tokens)

/-- The tokens of each item of a list. -/
def itemTokens : List Expression → List (List Token)
  | [] => []
  | item :: items => grouped .operand item item.tokens :: itemTokens items

end

/-- The text of an expression; `quote` says which quotation marks stand around a string. -/
def Expression.print (quote : String → Quote) (e : Expression) : String :=
  String.ofList (spell quote e.tokens)

theorem Expression.level_ne_items (e : Expression) : e.level ≠ .items := by
  intro h
  cases e <;> cases h

theorem derives_grouped {level : Level} {e : Expression} (hne : level ≠ .items)
    (h : Derives e.level e.tokens e) : Derives level (grouped level e e.tokens) e := by
  unfold grouped
  split
  · have hinner : Derives .disjunction e.tokens e := h.loosen (Nat.zero_le _) e.level_ne_items
    have hrank : level.rank ≤ Level.operand.rank := by cases level <;> simp [Level.rank] at hne ⊢
    exact hinner.parentheses.loosen hrank (by decide)
  · next hrank => exact h.loosen (Nat.le_of_not_lt hrank) e.level_ne_items

theorem derives_list {items : List Expression}
    (h : ∀ item ∈ items, Derives item.level item.tokens item) :
    Derives .operand (Expression.list items).tokens (.list items) := by
  rw [Expression.tokens]
  cases items with
  | nil => exact .emptyList
  | cons item items =>
    refine .list ?_
    induction items generalizing item with
    | nil =>
      rw [itemTokens, itemTokens, List.intercalate_singleton]
      exact .lastItem (derives_grouped (by decide) (h item List.mem_cons_self))
    | cons next items ih =>
      obtain ⟨hitem, hmore⟩ := List.forall_mem_cons.1 h
      rw [itemTokens, itemTokens, List.intercalate_cons_cons, ← itemTokens, List.append_assoc]
      exact .moreItems (derives_grouped (by decide) hitem) (ih next hmore)

/-- The tokens of a well-formed expression derive it. A name without words would have none. -/
theorem derives_tokens {e : Expression} (h : e.WellFormed) : Derives e.level e.tokens e := by
  induction h with
  | @literal literal => exact .literal literal
  | name hne =>
    obtain ⟨name, attributes, rfl⟩ := List.exists_cons_of_ne_nil hne
    exact .name name attributes
  | list _ ih => exact derives_list ih
  | not _ ih => exact .not (derives_grouped (by decide) ih)
  | and _ _ ihleft ihright =>
    exact .and (derives_grouped (by decide) ihleft) (derives_grouped (by decide) ihright)
  | or _ _ ihleft ihright =>
    exact .or (derives_grouped (by decide) ihleft) (derives_grouped (by decide) ihright)
  | @compare sign _ _ _ _ ihleft ihright =>
    exact .compare sign (derives_grouped (by decide) ihleft) (derives_grouped (by decide) ihright)

/-! ## The tokens of well-formed expressions -/

theorem wellFormed_grouped {level : Level} {e : Expression} {ts : List Token}
    (h : ∀ token ∈ ts, token.WellFormed) : ∀ token ∈ grouped level e ts, token.WellFormed := by
  unfold grouped
  split
  · rw [List.forall_mem_cons, List.forall_mem_append, List.forall_mem_singleton]
    exact ⟨trivial, h, trivial⟩
  · exact h

theorem itemTokens_eq_map (items : List Expression) :
    itemTokens items = items.map fun item => grouped .operand item item.tokens := by
  induction items with
  | nil => rfl
  | cons item items ih => rw [itemTokens, ih, List.map_cons]

theorem wellFormed_intercalate {lists : List (List Token)}
    (h : ∀ ts ∈ lists, ∀ token ∈ ts, token.WellFormed) :
    ∀ token ∈ [Token.comma].intercalate lists, token.WellFormed := by
  induction lists with
  | nil => simp
  | cons ts lists ih =>
    obtain ⟨hts, hlists⟩ := List.forall_mem_cons.1 h
    cases lists with
    | nil => simpa using hts
    | cons us lists =>
      rw [List.intercalate_cons_cons]
      simp only [List.forall_mem_append, List.forall_mem_singleton]
      exact ⟨⟨hts, trivial⟩, ih hlists⟩

theorem Expression.WellFormed.tokens {e : Expression} (h : e.WellFormed) :
    ∀ token ∈ e.tokens, token.WellFormed := by
  induction h with
  | @literal literal h =>
    rw [Expression.tokens, List.forall_mem_singleton]
    cases literal with
    | bool value => cases value <;> trivial
    | integer value => exact h
    | none | string => trivial
  | @name path hne h =>
    obtain ⟨name, attributes, rfl⟩ := List.exists_cons_of_ne_nil hne
    obtain ⟨hname, hattributes⟩ := List.forall_mem_cons.1 h
    rw [Expression.tokens, nameTokens, List.forall_mem_cons]
    refine ⟨hname, fun token htoken => ?_⟩
    obtain ⟨word, hword, rfl | rfl⟩ := mem_attributeTokens.1 htoken
    · trivial
    · exact hattributes word hword
  | @list items _ ih =>
    have hitems : ∀ ts ∈ itemTokens items, ∀ token ∈ ts, token.WellFormed := by
      rw [itemTokens_eq_map, List.forall_mem_map]
      exact fun item hitem => wellFormed_grouped (ih item hitem)
    rw [Expression.tokens, List.forall_mem_cons, List.forall_mem_append, List.forall_mem_singleton]
    exact ⟨trivial, wellFormed_intercalate hitems, trivial⟩
  | not _ ih =>
    rw [Expression.tokens, List.forall_mem_cons]
    exact ⟨trivial, wellFormed_grouped ih⟩
  | and _ _ ihleft ihright | or _ _ ihleft ihright =>
    rw [Expression.tokens, List.forall_mem_append, List.forall_mem_cons]
    exact ⟨wellFormed_grouped ihleft, trivial, wellFormed_grouped ihright⟩
  | @compare sign left right _ _ ihleft ihright =>
    rw [Expression.tokens, List.forall_mem_append, List.forall_mem_append]
    refine ⟨wellFormed_grouped ihleft, ?_, wellFormed_grouped ihright⟩
    cases sign <;> simp [Comparison.tokens, Token.WellFormed]

/-! ## Round trip -/

theorem parse_eq_ok_iff {source : String} {condition : Condition} :
    parse source = .ok condition ↔
      (∃ read, tokens source.toList = .ok read ∧
        Expression.ofTokens read = .ok condition.expression) ∧ condition.source = source := by
  rw [parse, bind_eq_ok_iff, Expression.parse]
  simp only [bind_eq_ok_iff]
  constructor
  · rintro ⟨e, hread, heq⟩
    cases heq
    exact ⟨hread, rfl⟩
  · rintro ⟨hread, rfl⟩
    exact ⟨condition.expression, hread, rfl⟩

theorem parse_of_derives {source : String} {ts : List Token} {e : Expression}
    (hread : Condition.tokens source.toList = .ok ts) (h : Derives .disjunction ts e) :
    parse source = .ok ⟨source, e⟩ :=
  parse_eq_ok_iff.2 ⟨⟨ts, hread, ofTokens_of_derives h⟩, rfl⟩

/-- What a text is read as is well formed, and a well-formed expression is what its print is read
as, whatever quotation marks stand around its strings. -/
theorem parse_print_wellFormed (quote : String → Quote) :
    (∀ source condition, parse source = .ok condition → condition.expression.WellFormed) ∧
    (∀ e : Expression, e.WellFormed → parse (e.print quote) = .ok ⟨e.print quote, e⟩) := by
  constructor
  · intro source condition h
    obtain ⟨⟨read, hread, hexpression⟩, -⟩ := parse_eq_ok_iff.1 h
    exact (derives_of_ofTokens hexpression).wellFormed (wellFormed_of_tokens hread)
  · intro e h
    have hread : Condition.tokens (e.print quote).toList = .ok e.tokens := by
      rw [Expression.print, String.toList_ofList]
      exact tokens_spell quote h.tokens
    have hderives : Derives .disjunction e.tokens e :=
      (derives_tokens h).loosen (Nat.zero_le _) e.level_ne_items
    exact parse_eq_ok_iff.2 ⟨⟨e.tokens, hread, ofTokens_of_derives hderives⟩, rfl⟩

/-- A negated comparison with a list, next to a disjunction that groups to the right. -/
theorem parse_print_wellFormed_negation :
    let e : Expression :=
      .and
        (.not (.compare .notMember (.name ["a", "b"])
          (.list [.literal (.string "it's \\"), .not (.literal (.integer (-0x8000000000000000)))])))
        (.or (.name ["c"]) (.or (.literal .none) (.literal (.bool true))))
    let source := "not a . b not in [ 'it\\'s \\\\' , ( not -9223372036854775808 ) ] " ++
      "and ( c or ( None or True ) )"
    e.WellFormed ∧ parse source = .ok ⟨source, e⟩ := by
  intro e source
  have hsource : e.print (fun _ => .single) = source := by decide +kernel
  have hname : ∀ word ∈ ["a", "b"], isName word := by decide
  have hwell : e.WellFormed := by
    refine .and (.not (.compare (.name (by decide) hname) (.list ?_)))
      (.or (.name (by decide) ?_) (.or ?_ ?_))
    · rw [List.forall_mem_cons, List.forall_mem_singleton]
      exact ⟨.literal trivial, .not (.literal ⟨by decide, by decide⟩)⟩
    · rw [List.forall_mem_singleton]
      decide
    · exact .literal trivial
    · exact .literal trivial
  have hparse := (parse_print_wellFormed fun _ => .single).2 e hwell
  rw [hsource] at hparse
  exact ⟨(parse_print_wellFormed fun _ => .single).1 source _ hparse, hparse⟩

end Stencil.Condition
