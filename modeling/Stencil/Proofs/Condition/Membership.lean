import Mathlib.Data.List.Forall2
import Stencil.Proofs.Condition.Concatenation
import Stencil.Proofs.Condition.Printing

/-!
# Membership and comparison

Whether a value is in a list can be asked of the list, or of its items one by one: both conditions
say the same, and so do a comparison that is denied and the denial of a comparison, the latter also
where there is a fault (`membership_agrees`). The conditions are given by their texts, which are put
together from the texts of operands.
-/

namespace Stencil

/-! ## Equal values -/

namespace Value

mutual

theorem beq_comm : (v w : Value) → Value.beq v w = Value.beq w v
  | .null, w => by cases w <;> rfl
  | .bool a, w => by cases w <;> simp [Value.beq, eq_comm]
  | .number a, w => by
    cases w with
    | number b =>
      cases a <;> cases b <;>
        simp [Value.beq, BEq.beq, Number.beq, Double.beq, eq_comm, Bool.and_comm]
    | _ => rfl
  | .string a, w => by cases w <;> simp [Value.beq, eq_comm]
  | .array xs, w => by
    cases w with
    | array ys => rw [Value.beq, Value.beq, beqItems_comm xs ys]
    | _ => rfl
  | .object fs, w => by
    cases w with
    | object gs => rw [Value.beq, Value.beq, beqFields_comm fs gs]
    | _ => rfl

theorem beqItems_comm : (xs ys : List Value) → beqItems xs ys = beqItems ys xs
  | [], ys => by cases ys <;> rfl
  | x :: xs, ys => by
    cases ys with
    | nil => rfl
    | cons y ys => rw [beqItems, beqItems, beq_comm x y, beqItems_comm xs ys]

theorem beqFields_comm : (fs gs : List (String × Value)) → beqFields fs gs = beqFields gs fs
  | [], gs => by cases gs <;> rfl
  | (k, x) :: fs, gs => by
    cases gs with
    | nil => rfl
    | cons g gs =>
      rw [beqFields, beqFields, beq_comm x g.2, beqFields_comm fs gs, decide_eq_decide.2 eq_comm]

end

end Value

namespace Condition

open Expression

/-! ## Texts of operands and conditions -/

/-- The text is an operand, and this is what it is read as. -/
def IsOperand (text : String) (e : Expression) : Prop :=
  ∃ ts, tokens text.toList = .ok ts ∧ Derives .operand ts e

/-- The text of a list. -/
def listText (items : List String) : String :=
  "[" ++ ", ".intercalate items ++ "]"

def Comparison.word : Comparison → String
  | .equal => "=="
  | .notEqual => "!="
  | .member => "in"
  | .notMember => "not in"

/-- The text of a comparison. -/
def compareText (sign : Comparison) (left right : String) : String :=
  left ++ " " ++ sign.word ++ " " ++ right

/-- The connectives of two operands. -/
inductive Connective where
  | or
  | and

namespace Connective

def word : Connective → String
  | .or => "or"
  | .and => "and"

def token : Connective → Token
  | .or => .or
  | .and => .and

/-- The level at which the connective groups to the left. -/
def level : Connective → Level
  | .or => .disjunction
  | .and => .conjunction

def join : Connective → Expression → Expression → Expression
  | .or => .or
  | .and => .and

/-- The truth value of two operands. -/
def decides : Connective → Bool → Bool → Bool
  | .or => (· || ·)
  | .and => (· && ·)

/-- The truth value of no operands. -/
def unit : Connective → Bool
  | .or => false
  | .and => true

/-- The text of operands with the connective between them, and of no operands. -/
def text (connective : Connective) : List String → String
  | [] => if connective.unit then "True" else "False"
  | operands => (" " ++ connective.word ++ " ").intercalate operands

end Connective

example :
    Connective.or.text (["1", "'a'"].map (compareText .equal "x")) = "x == 1 or x == 'a'" := by
  decide +kernel

/-- The text is a condition, and this is whether it holds. -/
def Tells (source : String) (names : Namespace) (result : Except EvaluationFault Bool) : Prop :=
  ∃ condition, parse source = .ok condition ∧ condition.holds names = result

/-! ## Tokens of these texts -/

/-- The text stands between two others as the tokens do. -/
structure Separates (text : List Char) (ts : List Token) : Prop where
  endsWord : ∀ rest, EndsWord (text ++ rest)
  tokens_append : ∀ {rest us}, tokens rest = .ok us → tokens (text ++ rest) = .ok (ts ++ us)

theorem separates_space {text : List Char} {ts : List Token} (h : tokens text = .ok ts)
    (htext : EndsWord text) : Separates (text ++ [' ']) ts where
  endsWord rest := by
    cases text with
    | nil => exact endsWord_cons (by decide) rest
    | cons c cs => exact endsWord_cons (htext c rfl) _
  tokens_append {rest us} hrest := by
    rw [List.append_assoc, List.singleton_append]
    apply tokens_append_eq_ok (endsWord_cons (by decide) rest) h
    rw [tokens_space, hrest]

/-- The spellings of tokens, with a space on both sides. -/
theorem separates_spell {ts : List Token} (h : ∀ token ∈ ts, token.WellFormed) :
    Separates (' ' :: spell (fun _ => .single) ts ++ [' ']) ts := by
  apply separates_space _ (endsWord_cons (by decide) _)
  rw [tokens_space, tokens_spell _ h]

theorem separates_comma : Separates ", ".toList [.comma] := by
  have h : tokens [','] = .ok [.comma] := by
    rw [tokens_cons, @cut_sign ',' [] .comma (by decide)]
    simp only [Bind.bind, Except.bind, tokens_nil]
    rfl
  exact separates_space h (endsWord_cons (by decide) [])

theorem separates_comparison (sign : Comparison) :
    Separates (" " ++ sign.word ++ " ").toList sign.tokens := by
  have h : Separates (' ' :: spell (fun _ => .single) sign.tokens ++ [' ']) sign.tokens := by
    apply separates_spell
    cases sign <;> simp [Comparison.tokens, Token.WellFormed]
  cases sign <;> exact h

theorem separates_connective (connective : Connective) :
    Separates (" " ++ connective.word ++ " ").toList [connective.token] := by
  have h : Separates (' ' :: spell (fun _ => .single) [connective.token] ++ [' '])
      [connective.token] := by
    apply separates_spell
    cases connective <;> simp [Connective.token, Token.WellFormed]
  cases connective <;> exact h

theorem tokens_intercalate {separator : List Char} {us : List Token}
    (hseparator : Separates separator us) {texts : List (List Char)} {tss : List (List Token)}
    (h : List.Forall₂ (fun text ts => tokens text = .ok ts) texts tss) :
    tokens (separator.intercalate texts) = .ok (us.intercalate tss) := by
  induction h with
  | nil => exact tokens_nil
  | @cons text ts texts tss hts hmore ih =>
    cases hmore with
    | nil => simpa using hts
    | cons hnext hmore =>
      rw [List.intercalate_cons_cons, List.intercalate_cons_cons, List.append_assoc,
        List.append_assoc]
      exact tokens_append_eq_ok (hseparator.endsWord _) hts (hseparator.tokens_append ih)

theorem tokens_compareText {sign : Comparison} {left right : String} {ts us : List Token}
    (hleft : tokens left.toList = .ok ts) (hright : tokens right.toList = .ok us) :
    tokens (compareText sign left right).toList = .ok (ts ++ (sign.tokens ++ us)) := by
  have hsign := separates_comparison sign
  have htext : (compareText sign left right).toList =
      left.toList ++ ((" " ++ sign.word ++ " ").toList ++ right.toList) := by
    simp [compareText]
  rw [htext]
  exact tokens_append_eq_ok (hsign.endsWord _) hleft (hsign.tokens_append hright)

theorem tokens_listText {items : List String} {tss : List (List Token)}
    (h : List.Forall₂ (fun item ts => tokens item.toList = .ok ts) items tss) :
    tokens (listText items).toList =
      .ok (.leftBracket :: ([.comma].intercalate tss ++ [.rightBracket])) := by
  have hclose : tokens [']'] = .ok [.rightBracket] := by
    rw [tokens_cons, @cut_sign ']' [] .rightBracket (by decide)]
    simp only [Bind.bind, Except.bind, tokens_nil]
    rfl
  have hitems : tokens (", ".intercalate items).toList = .ok ([.comma].intercalate tss) := by
    rw [String.toList_intercalate]
    exact tokens_intercalate separates_comma (List.forall₂_map_left_iff.2 h)
  have htext : (listText items).toList = '[' :: ((", ".intercalate items).toList ++ [']']) := by
    simp [listText]
  rw [htext, tokens_cons, @cut_sign '[' _ .leftBracket (by decide)]
  change (tokens ((", ".intercalate items).toList ++ [']'])).map _ = _
  rw [tokens_append_eq_ok (endsWord_cons (by decide) []) hitems hclose]
  rfl

theorem tokens_not {source : String} {ts : List Token} (h : tokens source.toList = .ok ts) :
    tokens ("not " ++ source).toList = .ok (.not :: ts) := by
  have hnot : Begins ("not".toList ++ ' ' :: source.toList) .not (' ' :: source.toList) :=
    begins_word (separated_space _) rfl
  have htext : ("not " ++ source).toList = "not".toList ++ ' ' :: source.toList := by
    simp
  rw [htext, tokens_of_begins hnot, tokens_space, h]
  rfl

/-! ## What the texts are read as -/

theorem derives_items {tss : List (List Token)} {es : List Expression}
    (h : List.Forall₂ (Derives .operand) tss es) :
    Derives .operand (.leftBracket :: ([.comma].intercalate tss ++ [.rightBracket]))
      (.list es) := by
  cases h with
  | nil => exact .emptyList
  | @cons ts e tss es hfirst hmore =>
    refine .list ?_
    induction hmore generalizing ts e with
    | nil => simpa using Derives.lastItem hfirst
    | @cons ts' e' tss es hnext hmore ih =>
      rw [List.intercalate_cons_cons, List.append_assoc]
      exact .moreItems hfirst (ih hnext)

theorem intercalate_append_cons {α : Type} (separator first second : List α)
    (lists : List (List α)) :
    separator.intercalate ((first ++ second) :: lists) =
      first ++ separator.intercalate (second :: lists) := by
  cases lists <;> simp

theorem Connective.derives (connective : Connective) {ts us : List Token}
    {left right : Expression} (hleft : Derives connective.level ts left)
    (hright : Derives .comparison us right) :
    Derives connective.level (ts ++ connective.token :: us) (connective.join left right) := by
  cases connective with
  | or => exact .or hleft (.conjunction (.negation hright))
  | and => exact .and hleft (.negation hright)

/-- Connectives group to the left. -/
theorem Connective.derives_foldl (connective : Connective) {ts : List Token}
    {tss : List (List Token)} {left : Expression} {es : List Expression}
    (hleft : Derives connective.level ts left) (h : List.Forall₂ (Derives .comparison) tss es) :
    Derives connective.level ([connective.token].intercalate (ts :: tss))
      (es.foldl connective.join left) := by
  induction h generalizing ts left with
  | nil => simpa using hleft
  | @cons us e tss es hnext _ ih =>
    have h := ih (connective.derives hleft hnext)
    rw [List.append_cons, intercalate_append_cons] at h
    rw [List.intercalate_cons_cons]
    exact h

theorem tells_of_derives {source : String} {ts : List Token} {level : Level} {e : Expression}
    (hts : tokens source.toList = .ok ts) (h : Derives level ts e) (hlevel : level ≠ .items)
    (names : Namespace) : Tells source names ((evaluate names e).map Value.isTruthy) := by
  refine ⟨_, parse_of_derives hts (h.loosen (Nat.zero_le _) hlevel), ?_⟩
  rw [Condition.holds]
  cases evaluate names e <;> rfl

/-! ## Values -/

section evaluate

variable {names : Namespace}

theorem evaluateItems_of_forall₂ {es : List Expression} {values : List Value}
    (h : List.Forall₂ (fun e value => evaluate names e = .ok value) es values) :
    evaluateItems names es = .ok values := by
  induction h with
  | nil => rw [evaluateItems]
  | cons hfirst _ ih =>
    rw [evaluateItems, hfirst, ih]
    rfl

theorem evaluate_compare {sign : Comparison} {left right : Expression} {value value' : Value}
    (hleft : evaluate names left = .ok value) (hright : evaluate names right = .ok value') :
    evaluate names (.compare sign left right) = (sign.holds value value').map .bool := by
  rw [evaluate, hleft, hright]
  change (sign.holds value value' >>= _) = _
  cases sign.holds value value' <;> rfl

/-- A comparison that is denied is the denial of the comparison. -/
theorem evaluate_not_compare {sign denied : Comparison}
    (h : ∀ value value', denied.holds value value' = (sign.holds value value').map (!·))
    (left right : Expression) :
    evaluate names (.not (.compare sign left right)) =
      evaluate names (.compare denied left right) := by
  rw [evaluate, evaluate, evaluate]
  cases evaluate names left with
  | error fault => rfl
  | ok value =>
    cases evaluate names right with
    | error fault => rfl
    | ok value' =>
      change ((sign.holds value value' >>= _) >>= _) = (denied.holds value value' >>= _)
      rw [h]
      cases sign.holds value value' <;> rfl

theorem Connective.evaluate_join (connective : Connective) {left right : Expression}
    {first second : Bool} (hleft : evaluate names left = .ok (.bool first))
    (hright : evaluate names right = .ok (.bool second)) :
    evaluate names (connective.join left right) =
      .ok (.bool (connective.decides first second)) := by
  cases connective with
  | or =>
    change evaluate names (.or left right) = _
    rw [evaluate, hleft, hright]
    cases first <;> rfl
  | and =>
    change evaluate names (.and left right) = _
    rw [evaluate, hleft, hright]
    cases first <;> rfl

theorem Connective.evaluate_foldl (connective : Connective) {left : Expression} {first : Bool}
    (hleft : evaluate names left = .ok (.bool first)) {es : List Expression} {others : List Bool}
    (h : List.Forall₂ (fun e other => evaluate names e = .ok (.bool other)) es others) :
    evaluate names (es.foldl connective.join left) =
      .ok (.bool (others.foldl connective.decides first)) := by
  induction h generalizing left first with
  | nil => exact hleft
  | cons hnext _ ih => exact ih (connective.evaluate_join hleft hnext)

theorem foldl_or (first : Bool) (others : List Bool) :
    others.foldl (· || ·) first = (first || others.any id) := by
  induction others generalizing first with
  | nil => simp
  | cons other others ih => simp [ih, Bool.or_assoc]

theorem foldl_and (first : Bool) (others : List Bool) :
    others.foldl (· && ·) first = (first && others.all id) := by
  induction others generalizing first with
  | nil => simp
  | cons other others ih => simp [ih, Bool.and_assoc]

end evaluate

/-! ## What the texts tell -/

section tells

variable {names : Namespace}

theorem tells_compareText (sign : Comparison) {left right : String} {e f : Expression}
    (hleft : IsOperand left e) (hright : IsOperand right f) (names : Namespace) :
    Tells (compareText sign left right) names
      ((evaluate names (.compare sign e f)).map Value.isTruthy) := by
  obtain ⟨ts, hts, he⟩ := hleft
  obtain ⟨us, hus, hf⟩ := hright
  exact tells_of_derives (tokens_compareText hts hus) (.compare sign he hf) (by decide) names

theorem tells_not_compareText (sign : Comparison) {left right : String} {e f : Expression}
    (hleft : IsOperand left e) (hright : IsOperand right f) (names : Namespace) :
    Tells ("not " ++ compareText sign left right) names
      ((evaluate names (.not (.compare sign e f))).map Value.isTruthy) := by
  obtain ⟨ts, hts, he⟩ := hleft
  obtain ⟨us, hus, hf⟩ := hright
  exact tells_of_derives (tokens_not (tokens_compareText hts hus))
    (.not (.negation (.compare sign he hf))) (by decide) names

/-- Comparisons with a connective between them tell what the connective makes of their truth
values. -/
theorem Connective.tells_text (connective : Connective) {texts : List String}
    {tss : List (List Token)} {es : List Expression} {values : List Bool}
    (htexts : List.Forall₂ (fun text ts => tokens text.toList = .ok ts) texts tss)
    (hes : List.Forall₂ (Derives .comparison) tss es)
    (hvalues : List.Forall₂ (fun e value => evaluate names e = .ok (.bool value)) es values) :
    Tells (connective.text texts) names
      (.ok (values.foldl connective.decides connective.unit)) := by
  cases htexts with
  | nil =>
    cases hes
    cases hvalues
    have hts : tokens (connective.text []).toList = .ok [(Literal.bool connective.unit).token] := by
      cases connective with
      | or => exact @tokens_spell (fun _ => .single) [.false] (by simp [Token.WellFormed])
      | and => exact @tokens_spell (fun _ => .single) [.true] (by simp [Token.WellFormed])
    have htells := tells_of_derives hts (.literal (.bool connective.unit)) (by decide) names
    rw [evaluate] at htells
    exact htells
  | @cons text ts texts tss hts hmore =>
    cases hes with
    | @cons _ e _ es he hes =>
      cases hvalues with
      | @cons _ value _ values hvalue hvalues =>
        have htokens : tokens (connective.text (text :: texts)).toList =
            .ok ([connective.token].intercalate (ts :: tss)) := by
          change tokens ((" " ++ connective.word ++ " ").intercalate (text :: texts)).toList = _
          rw [String.toList_intercalate]
          exact tokens_intercalate (separates_connective connective)
            (List.forall₂_map_left_iff.2 (.cons hts hmore))
        have hfirst : Derives connective.level ts e :=
          he.loosen (by cases connective <;> decide) (by decide)
        have htells := tells_of_derives htokens (connective.derives_foldl hfirst hes)
          (by cases connective <;> decide) names
        rw [connective.evaluate_foldl hvalue hvalues] at htells
        have hunit : connective.decides connective.unit value = value := by
          cases connective <;> rfl
        rw [List.foldl_cons, hunit]
        exact htells

theorem exists_tokens_of_isOperand {items : List String} {es : List Expression}
    (h : List.Forall₂ IsOperand items es) :
    ∃ tss, List.Forall₂ (fun item ts => tokens item.toList = .ok ts) items tss ∧
      List.Forall₂ (Derives .operand) tss es := by
  induction h with
  | nil => exact ⟨[], .nil, .nil⟩
  | cons hfirst _ ih =>
    obtain ⟨ts, hts, he⟩ := hfirst
    obtain ⟨tss, htss, hes⟩ := ih
    exact ⟨ts :: tss, .cons hts htss, .cons he hes⟩

theorem isOperand_listText {items : List String} {es : List Expression}
    (h : List.Forall₂ IsOperand items es) : IsOperand (listText items) (.list es) := by
  obtain ⟨tss, htss, hes⟩ := exists_tokens_of_isOperand h
  exact ⟨_, tokens_listText htss, derives_items hes⟩

/-- The operand is compared with each of the others, and the connective is between the
comparisons. -/
theorem Connective.tells_compareTexts (connective : Connective) {sign : Comparison}
    {test : Value → Value → Bool} (htest : ∀ v w, sign.holds v w = .ok (test v w))
    {x : String} {items : List String} {e : Expression} {es : List Expression} {value : Value}
    {values : List Value} (hx : IsOperand x e) (hitems : List.Forall₂ IsOperand items es)
    (hvalue : evaluate names e = .ok value)
    (hvalues : List.Forall₂ (fun e value => evaluate names e = .ok value) es values) :
    Tells (connective.text (items.map (compareText sign x))) names
      (.ok ((values.map (test value)).foldl connective.decides connective.unit)) := by
  obtain ⟨ts, hts, he⟩ := hx
  obtain ⟨tss, htss, hes⟩ := exists_tokens_of_isOperand hitems
  have htexts : List.Forall₂ (fun text ts => tokens text.toList = .ok ts)
      (items.map (compareText sign x)) (tss.map fun us => ts ++ (sign.tokens ++ us)) := by
    rw [List.forall₂_map_left_iff, List.forall₂_map_right_iff]
    exact htss.imp fun _ _ hus => tokens_compareText hts hus
  have hcompares : List.Forall₂ (Derives .comparison)
      (tss.map fun us => ts ++ (sign.tokens ++ us)) (es.map (.compare sign e)) := by
    rw [List.forall₂_map_left_iff, List.forall₂_map_right_iff]
    exact hes.imp fun _ _ hf => .compare sign he hf
  apply connective.tells_text htexts hcompares
  rw [List.forall₂_map_left_iff, List.forall₂_map_right_iff]
  refine hvalues.imp fun f other hother => ?_
  rw [evaluate_compare hvalue hother, htest]
  rfl

end tells

/-- A value is in a list if it equals one of the items, and not in it if it differs from all of
them: the conditions that ask this of the list and those that ask it of the items say the same. A
comparison that is denied says the same as the denial of the comparison, whatever the operands. -/
theorem membership_agrees :
    (∀ (names : Namespace) (x : String) (items : List String) (e : Expression)
        (es : List Expression) (value : Value) (values : List Value),
      IsOperand x e → List.Forall₂ IsOperand items es → evaluate names e = .ok value →
      List.Forall₂ (fun e value => evaluate names e = .ok value) es values →
      let among := values.any (· == value)
      Tells (compareText .member x (listText items)) names (.ok among) ∧
      Tells (Connective.or.text (items.map (compareText .equal x))) names (.ok among) ∧
      Tells (compareText .notMember x (listText items)) names (.ok !among) ∧
      Tells (Connective.and.text (items.map (compareText .notEqual x))) names (.ok !among)) ∧
    ∀ (names : Namespace) (x y : String) (e f : Expression), IsOperand x e → IsOperand y f →
      (∃ result, Tells (compareText .notMember x y) names result ∧
        Tells ("not " ++ compareText .member x y) names result) ∧
      ∃ result, Tells (compareText .notEqual x y) names result ∧
        Tells ("not " ++ compareText .equal x y) names result := by
  constructor
  · intro names x items e es value values hx hitems hvalue hvalues among
    have hamong : values.any (value == ·) = among := by
      congr 1
      funext other
      exact Value.beq_comm value other
    have hlist := isOperand_listText hitems
    have hevaluate : evaluate names (.list es) = .ok (.array values) := by
      rw [evaluate, evaluateItems_of_forall₂ hvalues]
      rfl
    refine ⟨?_, ?_, ?_, ?_⟩
    · have htells := tells_compareText .member hx hlist names
      rw [evaluate_compare hvalue hevaluate] at htells
      rw [← hamong]
      exact htells
    · have htest : ∀ v w, Comparison.equal.holds v w = .ok (v == w) := fun _ _ => rfl
      have htells := Connective.or.tells_compareTexts htest hx hitems hvalue hvalues
      have hfold := foldl_or false (values.map (value == ·))
      rw [Bool.false_or, List.any_map] at hfold
      rw [← hamong]
      exact hfold ▸ htells
    · have htells := tells_compareText .notMember hx hlist names
      rw [evaluate_compare hvalue hevaluate] at htells
      rw [← hamong]
      exact htells
    · have htest : ∀ v w, Comparison.notEqual.holds v w = .ok (v != w) := fun _ _ => rfl
      have htells := Connective.and.tells_compareTexts htest hx hitems hvalue hvalues
      have hfold := foldl_and true (values.map (value != ·))
      rw [Bool.true_and, List.all_map] at hfold
      rw [← hamong, List.not_any_eq_all_not]
      exact hfold ▸ htells
  · intro names x y e f hx hy
    have hmember :
        ∀ v w, Comparison.notMember.holds v w = (Comparison.member.holds v w).map (!·) :=
      fun _ _ => rfl
    have hequal :
        ∀ v w, Comparison.notEqual.holds v w = (Comparison.equal.holds v w).map (!·) :=
      fun _ _ => rfl
    constructor
    · refine ⟨_, tells_compareText .notMember hx hy names, ?_⟩
      rw [← evaluate_not_compare hmember]
      exact tells_not_compareText .member hx hy names
    · refine ⟨_, tells_compareText .notEqual hx hy names, ?_⟩
      rw [← evaluate_not_compare hequal]
      exact tells_not_compareText .equal hx hy names

theorem isOperand_of_spell {text : String} {e : Expression} (h : e.WellFormed)
    (hlevel : e.level = .operand) (htext : text.toList = spell (fun _ => .single) e.tokens) :
    IsOperand text e := by
  refine ⟨e.tokens, ?_, hlevel ▸ derives_tokens h⟩
  rw [htext]
  exact tokens_spell _ h.tokens

/-- A number is looked for among others, and then in something that has no value. -/
theorem membership_agrees_year :
    let names : Namespace := fun word =>
      if word = "year" then some (.number (.integer 2010)) else none
    Tells "year in [2009, 2010]" names (.ok true) ∧
      Tells "year == 2009 or year == 2010" names (.ok true) ∧
      Tells "year not in [2009, 2010]" names (.ok false) ∧
      Tells "year != 2009 and year != 2010" names (.ok false) ∧
      ∃ result, Tells "year not in years" names result ∧
        Tells "not year in years" names result := by
  intro names
  have hyear : IsOperand "year" (.name ["year"]) := by
    apply isOperand_of_spell (.name (by decide) (by decide)) rfl
    decide +kernel
  have hyears : IsOperand "years" (.name ["years"]) := by
    apply isOperand_of_spell (.name (by decide) (by decide)) rfl
    decide +kernel
  have hinteger : ∀ value ∈ [(2009 : Int), 2010], (Literal.integer value).WellFormed := by
    simp [Literal.WellFormed, IsInteger, minInteger, maxInteger]
  have h2009 : IsOperand "2009" (.literal (.integer 2009)) := by
    apply isOperand_of_spell (.literal (hinteger _ (by simp))) rfl
    decide +kernel
  have h2010 : IsOperand "2010" (.literal (.integer 2010)) := by
    apply isOperand_of_spell (.literal (hinteger _ (by simp))) rfl
    decide +kernel
  obtain ⟨hmember, hequal, hnotMember, hnotEqual⟩ := membership_agrees.1 names "year"
    ["2009", "2010"] _ _ _ _ hyear (.cons h2009 (.cons h2010 .nil)) rfl
    (.cons rfl (.cons rfl .nil))
  have hdenied := membership_agrees.2 names "year" "years" _ _ hyear hyears
  exact ⟨hmember, hequal, hnotMember, hnotEqual, hdenied.1⟩

end Condition

end Stencil
