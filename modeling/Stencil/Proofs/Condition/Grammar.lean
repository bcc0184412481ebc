import Stencil.Proofs.Condition.Reading

/-!
# The grammar of conditions

`Derives` is the grammar, with a rule for each way in which tokens make an expression. Reading
accepts exactly the lists of tokens that the grammar derives, and the expression it gives is the
only one that they derive (`ofTokens_eq_ok_iff_derives`).

By the recursion of the readers, what is read is derived (`derived_of_disjunction`). For the
converse a derived list is read in front of what follows it, provided that this does not go on with
it (`Completes`). The two levels whose connective groups to the left hand the expression that they
have read over to their tail, so the statement about them is that the tail is reached with it.
-/

namespace Stencil.Condition

/-! ## The grammar -/

/-- The levels of the grammar. -/
inductive Level where
  | disjunction
  | conjunction
  | negation
  | comparison
  | operand
  /-- Operands between the brackets of a list. -/
  | items
  deriving DecidableEq

/-- At the level the tokens are the expression. `or` and `and` group to the left, comparisons do not
chain, parentheses leave no trace, and a list may have a comma after its last item. -/
inductive Derives : Level → List Token → Expression → Prop
  | disjunction {ts e} (h : Derives .conjunction ts e) : Derives .disjunction ts e
  | or {ts us left right} (hleft : Derives .disjunction ts left)
      (hright : Derives .conjunction us right) :
      Derives .disjunction (ts ++ .or :: us) (.or left right)
  | conjunction {ts e} (h : Derives .negation ts e) : Derives .conjunction ts e
  | and {ts us left right} (hleft : Derives .conjunction ts left)
      (hright : Derives .negation us right) :
      Derives .conjunction (ts ++ .and :: us) (.and left right)
  | negation {ts e} (h : Derives .comparison ts e) : Derives .negation ts e
  | not {ts e} (h : Derives .negation ts e) : Derives .negation (.not :: ts) (.not e)
  | comparison {ts e} (h : Derives .operand ts e) : Derives .comparison ts e
  | compare {ts us left right} (sign : Comparison) (hleft : Derives .operand ts left)
      (hright : Derives .operand us right) :
      Derives .comparison (ts ++ (sign.tokens ++ us)) (.compare sign left right)
  | literal (literal : Literal) : Derives .operand [literal.token] (.literal literal)
  | name (name : String) (attributes : List String) :
      Derives .operand (.name name :: attributeTokens attributes) (.name (name :: attributes))
  | parentheses {ts e} (h : Derives .disjunction ts e) :
      Derives .operand (.leftParenthesis :: (ts ++ [.rightParenthesis])) e
  | emptyList : Derives .operand [.leftBracket, .rightBracket] (.list [])
  | list {ts items} (h : Derives .items ts (.list items)) :
      Derives .operand (.leftBracket :: (ts ++ [.rightBracket])) (.list items)
  | lastItem {ts e} (h : Derives .operand ts e) : Derives .items ts (.list [e])
  | lastComma {ts e} (h : Derives .operand ts e) : Derives .items (ts ++ [.comma]) (.list [e])
  | moreItems {ts us e items} (h : Derives .operand ts e)
      (hmore : Derives .items us (.list items)) :
      Derives .items (ts ++ .comma :: us) (.list (e :: items))

/-! ## What is read is derived -/

/-- At the level the tokens up to `rest` are the expression. -/
def Derived (level : Level) (tokens : List Token) (e : Expression) (rest : List Token) : Prop :=
  ∃ read, tokens = read ++ rest ∧ Derives level read e

theorem attributeTokens_of_parts {tokens rest : List Token} {words : List String}
    (h : parts (attributes tokens) = .ok (words, rest)) :
    tokens = attributeTokens words ++ rest := by
  fun_induction attributes tokens generalizing words with
  | case1 word after parsed hparsed ih =>
    cases h
    have hafter : after = attributeTokens parsed.value ++ parsed.rest := ih (by rw [hparsed]; rfl)
    conv => lhs; rw [hafter]
    rfl
  | case2 => cases h
  | case3 => cases h
  | case4 =>
    cases h
    rfl

theorem derived_of_literal (literal : Literal) {tokens rest : List Token} {e : Expression}
    (h : parts (operand (literal.token :: tokens)) = .ok (e, rest)) :
    Derived .operand (literal.token :: tokens) e rest := by
  rw [parts_operand_literal] at h
  cases h
  exact ⟨[literal.token], rfl, .literal literal⟩

mutual

theorem derived_of_disjunction {tokens rest : List Token} {e : Expression}
    (h : parts (disjunction tokens) = .ok (e, rest)) : Derived .disjunction tokens e rest := by
  rw [parts_disjunction, bind_eq_ok_iff] at h
  obtain ⟨⟨left, mid⟩, hleft, htail⟩ := h
  have hshorter : mid.length < tokens.length := length_lt_of_parts hleft
  obtain ⟨read, htokens, hread⟩ := derived_of_conjunction hleft
  rw [htokens]
  exact derived_of_disjunctionTail (.disjunction hread) htail
termination_by 8 * tokens.length + 4

theorem derived_of_disjunctionTail {before tokens rest : List Token} {left e : Expression}
    (hbefore : Derives .disjunction before left)
    (h : parts (disjunctionTail left tokens) = .ok (e, rest)) :
    Derived .disjunction (before ++ tokens) e rest := by
  by_cases hor : tokens.head? = some .or
  · obtain ⟨after, htokens⟩ := List.head?_eq_some_iff.1 hor
    have hlength : tokens.length = after.length + 1 := congrArg List.length htokens
    rw [htokens, parts_disjunctionTail_or, bind_eq_ok_iff] at h
    obtain ⟨⟨right, mid⟩, hright, htail⟩ := h
    have hshorter : mid.length < after.length := length_lt_of_parts hright
    obtain ⟨read, hafter, hread⟩ := derived_of_conjunction hright
    have hmore := derived_of_disjunctionTail (hbefore.or hread) htail
    rwa [List.append_assoc, List.cons_append, ← hafter, ← htokens] at hmore
  · rw [parts_disjunctionTail_of_ne left hor] at h
    cases h
    exact ⟨before, rfl, hbefore⟩
termination_by 8 * tokens.length

theorem derived_of_conjunction {tokens rest : List Token} {e : Expression}
    (h : parts (conjunction tokens) = .ok (e, rest)) : Derived .conjunction tokens e rest := by
  rw [parts_conjunction, bind_eq_ok_iff] at h
  obtain ⟨⟨left, mid⟩, hleft, htail⟩ := h
  have hshorter : mid.length < tokens.length := length_lt_of_parts hleft
  obtain ⟨read, htokens, hread⟩ := derived_of_negation hleft
  rw [htokens]
  exact derived_of_conjunctionTail (.conjunction hread) htail
termination_by 8 * tokens.length + 3

theorem derived_of_conjunctionTail {before tokens rest : List Token} {left e : Expression}
    (hbefore : Derives .conjunction before left)
    (h : parts (conjunctionTail left tokens) = .ok (e, rest)) :
    Derived .conjunction (before ++ tokens) e rest := by
  by_cases hand : tokens.head? = some .and
  · obtain ⟨after, htokens⟩ := List.head?_eq_some_iff.1 hand
    have hlength : tokens.length = after.length + 1 := congrArg List.length htokens
    rw [htokens, parts_conjunctionTail_and, bind_eq_ok_iff] at h
    obtain ⟨⟨right, mid⟩, hright, htail⟩ := h
    have hshorter : mid.length < after.length := length_lt_of_parts hright
    obtain ⟨read, hafter, hread⟩ := derived_of_negation hright
    have hmore := derived_of_conjunctionTail (hbefore.and hread) htail
    rwa [List.append_assoc, List.cons_append, ← hafter, ← htokens] at hmore
  · rw [parts_conjunctionTail_of_ne left hand] at h
    cases h
    exact ⟨before, rfl, hbefore⟩
termination_by 8 * tokens.length

theorem derived_of_negation {tokens rest : List Token} {e : Expression}
    (h : parts (negation tokens) = .ok (e, rest)) : Derived .negation tokens e rest := by
  by_cases hnot : tokens.head? = some .not
  · obtain ⟨after, htokens⟩ := List.head?_eq_some_iff.1 hnot
    have hlength : tokens.length = after.length + 1 := congrArg List.length htokens
    rw [htokens, parts_negation_not, bind_eq_ok_iff] at h
    obtain ⟨⟨inner, mid⟩, hinner, heq⟩ := h
    cases heq
    obtain ⟨read, hafter, hread⟩ := derived_of_negation hinner
    exact ⟨.not :: read, by rw [htokens, hafter]; rfl, hread.not⟩
  · rw [parts_negation_of_ne hnot] at h
    obtain ⟨read, htokens, hread⟩ := derived_of_comparison h
    exact ⟨read, htokens, .negation hread⟩
termination_by 8 * tokens.length + 2

theorem derived_of_comparison {tokens rest : List Token} {e : Expression}
    (h : parts (comparison tokens) = .ok (e, rest)) : Derived .comparison tokens e rest := by
  rw [parts_comparison, bind_eq_ok_iff] at h
  obtain ⟨⟨left, mid⟩, hleft, hafter⟩ := h
  have hshorter : mid.length < tokens.length := length_lt_of_parts hleft
  obtain ⟨read, htokens, hread⟩ := derived_of_operand hleft
  unfold comparisonAfter at hafter
  split at hafter
  · cases hafter
  · cases hafter
    exact ⟨read, htokens, .comparison hread⟩
  · next sign hsign =>
    rw [bind_eq_ok_iff] at hafter
    obtain ⟨⟨right, mid'⟩, hright, heq⟩ := hafter
    cases heq
    have hmid : mid = sign.value.tokens ++ sign.rest := comparison?_eq_ok hsign
    have hshorter' : sign.rest.length < mid.length := sign.shorter
    obtain ⟨read', hrest, hread'⟩ := derived_of_operand hright
    rw [hrest] at hmid
    refine ⟨read ++ (sign.value.tokens ++ read'), ?_, .compare sign.value hread hread'⟩
    rw [htokens, List.append_assoc, List.append_assoc, ← hmid]
termination_by 8 * tokens.length + 1

theorem derived_of_operand {tokens rest : List Token} {e : Expression}
    (h : parts (operand tokens) = .ok (e, rest)) : Derived .operand tokens e rest := by
  match tokens with
  | [] =>
    rw [operand.eq_def] at h
    cases h
  | .string text :: after => exact derived_of_literal (.string text) h
  | .integer value :: after => exact derived_of_literal (.integer value) h
  | .true :: after => exact derived_of_literal (.bool true) h
  | .false :: after => exact derived_of_literal (.bool false) h
  | .none :: after => exact derived_of_literal .none h
  | .name name :: after =>
    rw [parts_operand_name, bind_eq_ok_iff] at h
    obtain ⟨⟨words, mid⟩, hwords, heq⟩ := h
    cases heq
    exact ⟨.name name :: attributeTokens words, by rw [attributeTokens_of_parts hwords]; rfl,
      .name name words⟩
  | .leftParenthesis :: after =>
    rw [parts_operand_parenthesis, bind_eq_ok_iff] at h
    obtain ⟨⟨inner, mid⟩, hinner, hclose⟩ := h
    obtain ⟨read, hafter, hread⟩ := derived_of_disjunction hinner
    unfold closeParenthesis at hclose
    split at hclose
    · next hmid =>
      cases hclose
      refine ⟨.leftParenthesis :: (read ++ [.rightParenthesis]), ?_, .parentheses hread⟩
      rw [hafter, show mid = .rightParenthesis :: rest from hmid]
      simp
    · cases hclose
  | .leftBracket :: after =>
    rw [parts_operand_bracket, bind_eq_ok_iff] at h
    obtain ⟨⟨es, mid⟩, hitems, heq⟩ := h
    cases heq
    obtain ⟨read, hafter, ⟨rfl, rfl⟩ | hread⟩ := derived_of_items hitems
    · exact ⟨[.leftBracket, .rightBracket], by rw [hafter]; rfl, .emptyList⟩
    · exact ⟨.leftBracket :: (read ++ [.rightBracket]), by rw [hafter]; simp, .list hread⟩
  | .and :: _ | .or :: _ | .not :: _ | .in :: _ | .equal :: _ | .notEqual :: _
  | .rightParenthesis :: _ | .rightBracket :: _ | .comma :: _ | .dot :: _ =>
    rw [operand.eq_def] at h
    cases h
termination_by 8 * tokens.length

/-- The items of a list are read up to and with its closing bracket. -/
theorem derived_of_items {tokens rest : List Token} {es : List Expression}
    (h : parts (items tokens) = .ok (es, rest)) :
    ∃ read, tokens = read ++ .rightBracket :: rest ∧
      (read = [] ∧ es = [] ∨ Derives .items read (.list es)) := by
  by_cases hbracket : tokens.head? = some .rightBracket
  · obtain ⟨after, rfl⟩ := List.head?_eq_some_iff.1 hbracket
    rw [parts_items_bracket] at h
    cases h
    exact ⟨[], rfl, .inl ⟨rfl, rfl⟩⟩
  · rw [parts_items_of_ne hbracket, bind_eq_ok_iff] at h
    obtain ⟨⟨item, mid⟩, hitem, hafter⟩ := h
    have hshorter : mid.length < tokens.length := length_lt_of_parts hitem
    obtain ⟨read, htokens, hread⟩ := derived_of_operand hitem
    unfold itemsAfter at hafter
    split at hafter
    · next after hmid =>
      cases hafter
      exact ⟨read, by rw [htokens, ← hmid], .inr (.lastItem hread)⟩
    · next after hmid =>
      have hlength : mid.length = after.length + 1 := congrArg List.length hmid
      rw [bind_eq_ok_iff] at hafter
      obtain ⟨⟨more, mid'⟩, hmore, heq⟩ := hafter
      cases heq
      obtain ⟨read', hafter', ⟨rfl, rfl⟩ | hread'⟩ := derived_of_items hmore
      · refine ⟨read ++ [.comma], ?_, .inr (.lastComma hread)⟩
        rw [htokens, show mid = .comma :: after from hmid, hafter']
        simp
      · refine ⟨read ++ .comma :: read', ?_, .inr (.moreItems hread hread')⟩
        rw [htokens, show mid = .comma :: after from hmid, hafter']
        simp
    · cases hafter
termination_by 8 * tokens.length + 1

end

/-! ## What is derived is read -/

/-- The tokens that go on with what stands before them at the level. -/
def Level.extensions : Level → List Token
  | .operand => [.dot]
  | .comparison | .negation => [.dot, .equal, .notEqual, .in, .not]
  | .conjunction => [.dot, .equal, .notEqual, .in, .not, .and]
  | .disjunction => [.dot, .equal, .notEqual, .in, .not, .and, .or]
  | .items => []

/-- The tokens do not go on with what stands before them at the level. -/
def Level.Ends (level : Level) (rest : List Token) : Prop :=
  ∀ token, rest.head? = some token → token ∉ level.extensions

theorem Level.Ends.mono {level wider : Level} {rest : List Token} (h : wider.Ends rest)
    (hsub : level.extensions ⊆ wider.extensions) : level.Ends rest :=
  fun token htoken hmem => h token htoken (hsub hmem)

theorem Level.Ends.head?_ne {level : Level} {rest : List Token} (h : level.Ends rest)
    (token : Token) (htoken : token ∈ level.extensions) : rest.head? ≠ some token :=
  fun hhead => h token hhead htoken

theorem Level.ends_nil (level : Level) : level.Ends [] := by
  intro token htoken
  cases htoken

theorem Level.ends_cons {level : Level} {token : Token} (h : token ∉ level.extensions)
    (rest : List Token) : level.Ends (token :: rest) := by
  intro other hother
  cases hother
  exact h

theorem comparison?_of_ends {rest : List Token} (h : Level.Ends .comparison rest) :
    comparison? rest = .ok none := by
  unfold comparison?
  split
  · exact absurd rfl (h.head?_ne .equal (by decide))
  · exact absurd rfl (h.head?_ne .notEqual (by decide))
  · exact absurd rfl (h.head?_ne .in (by decide))
  · exact absurd rfl (h.head?_ne .not (by decide))
  · exact absurd rfl (h.head?_ne .not (by decide))
  · rfl

theorem parts_attributes_append (words : List String) {rest : List Token}
    (h : rest.head? ≠ some .dot) :
    parts (attributes (attributeTokens words ++ rest)) = .ok (words, rest) := by
  induction words with
  | nil => exact parts_attributes_of_ne h
  | cons word words ih =>
    have hcons : attributeTokens (word :: words) ++ rest =
        .dot :: .name word :: (attributeTokens words ++ rest) := rfl
    rw [hcons, parts_attributes_dot, ih]
    rfl

/-- Operands begin with a token that a reader does not take for anything else. -/
def BeginsOperand (tokens : List Token) : Prop :=
  ∃ token after, tokens = token :: after ∧ token ≠ .not ∧ token ≠ .rightBracket

theorem BeginsOperand.append {tokens : List Token} (h : BeginsOperand tokens)
    (rest : List Token) : BeginsOperand (tokens ++ rest) := by
  obtain ⟨token, after, rfl, hnot, hbracket⟩ := h
  exact ⟨token, after ++ rest, rfl, hnot, hbracket⟩

theorem BeginsOperand.head?_ne_not {tokens : List Token} (h : BeginsOperand tokens) :
    tokens.head? ≠ some .not := by
  obtain ⟨token, after, rfl, hnot, -⟩ := h
  simpa using hnot

theorem BeginsOperand.head?_ne_bracket {tokens : List Token} (h : BeginsOperand tokens) :
    tokens.head? ≠ some .rightBracket := by
  obtain ⟨token, after, rfl, -, hbracket⟩ := h
  simpa using hbracket

theorem Derives.beginsOperand {level : Level} {tokens : List Token} {e : Expression}
    (h : Derives level tokens e) (hlevel : level ∈ [Level.comparison, .operand, .items]) :
    BeginsOperand tokens := by
  induction h with
  | disjunction | or | conjunction | and | negation | not => simp at hlevel
  | comparison _ ih => exact ih (by decide)
  | compare sign _ _ ih _ => exact (ih (by decide)).append _
  | literal literal =>
    refine ⟨literal.token, [], rfl, ?_⟩
    cases literal with
    | bool value => cases value <;> decide
    | none | integer | string => simp [Literal.token]
  | name => exact ⟨_, _, rfl, by simp, by simp⟩
  | parentheses => exact ⟨_, _, rfl, by simp, by simp⟩
  | emptyList => exact ⟨_, _, rfl, by simp, by simp⟩
  | list => exact ⟨_, _, rfl, by simp, by simp⟩
  | lastItem _ ih => exact ih (by decide)
  | lastComma _ ih => exact (ih (by decide)).append _
  | moreItems _ _ ih _ => exact (ih (by decide)).append _

/-- In front of tokens that do not go on with it, what is derived is read. At the levels of the
connectives the tail is reached with it. -/
def Completes : Level → List Token → Expression → Prop
  | .disjunction, ts, e => ∀ rest, Level.Ends .conjunction rest →
      parts (disjunction (ts ++ rest)) = parts (disjunctionTail e rest)
  | .conjunction, ts, e => ∀ rest, Level.Ends .negation rest →
      parts (conjunction (ts ++ rest)) = parts (conjunctionTail e rest)
  | .negation, ts, e => ∀ rest, Level.Ends .negation rest →
      parts (negation (ts ++ rest)) = .ok (e, rest)
  | .comparison, ts, e => ∀ rest, Level.Ends .comparison rest →
      parts (comparison (ts ++ rest)) = .ok (e, rest)
  | .operand, ts, e => ∀ rest, Level.Ends .operand rest →
      parts (operand (ts ++ rest)) = .ok (e, rest)
  | .items, ts, e => ∀ es rest, e = .list es →
      parts (items (ts ++ .rightBracket :: rest)) = .ok (es, rest)

theorem Completes.conjunction_eq {tokens rest : List Token} {e : Expression}
    (h : Completes .conjunction tokens e) (hrest : Level.Ends .conjunction rest) :
    parts (conjunction (tokens ++ rest)) = .ok (e, rest) := by
  rw [h rest (hrest.mono (by decide)),
    parts_conjunctionTail_of_ne e (hrest.head?_ne _ (by decide))]

theorem Completes.disjunction_eq {tokens rest : List Token} {e : Expression}
    (h : Completes .disjunction tokens e) (hrest : Level.Ends .disjunction rest) :
    parts (disjunction (tokens ++ rest)) = .ok (e, rest) := by
  rw [h rest (hrest.mono (by decide)),
    parts_disjunctionTail_of_ne e (hrest.head?_ne _ (by decide))]

theorem Derives.completes {level : Level} {tokens : List Token} {e : Expression}
    (h : Derives level tokens e) : Completes level tokens e := by
  induction h with
  | disjunction _ ih =>
    intro rest hrest
    rw [parts_disjunction, ih.conjunction_eq hrest]
    rfl
  | @or ts us left right _ _ ihleft ihright =>
    intro rest hrest
    rw [List.append_assoc, List.cons_append, ihleft _ (Level.ends_cons (by decide) _),
      parts_disjunctionTail_or, ihright.conjunction_eq hrest]
    rfl
  | conjunction _ ih =>
    intro rest hrest
    rw [parts_conjunction, ih rest hrest]
    rfl
  | @and ts us left right _ _ ihleft ihright =>
    intro rest hrest
    rw [List.append_assoc, List.cons_append, ihleft _ (Level.ends_cons (by decide) _),
      parts_conjunctionTail_and, ihright rest hrest]
    rfl
  | @negation ts e h ih =>
    intro rest hrest
    have hbegins := (h.beginsOperand (by decide)).append rest
    rw [parts_negation_of_ne hbegins.head?_ne_not, ih rest hrest]
  | not _ ih =>
    intro rest hrest
    rw [List.cons_append, parts_negation_not, ih rest hrest]
    rfl
  | comparison _ ih =>
    intro rest hrest
    rw [parts_comparison, ih rest (hrest.mono (by decide))]
    show comparisonAfter _ = _
    unfold comparisonAfter
    dsimp only
    rw [comparison?_of_ends hrest]
  | @compare ts us left right sign _ _ ihleft ihright =>
    intro rest hrest
    have hends : Level.Ends .operand (sign.tokens ++ (us ++ rest)) := by
      cases sign <;> exact Level.ends_cons (by decide) _
    obtain ⟨shorter, hsign⟩ := comparison?_tokens sign (us ++ rest)
    rw [List.append_assoc, List.append_assoc, parts_comparison, ihleft _ hends]
    show comparisonAfter _ = _
    unfold comparisonAfter
    dsimp only
    rw [hsign]
    dsimp only
    rw [ihright rest (hrest.mono (by decide))]
    rfl
  | literal literal =>
    intro rest _
    exact parts_operand_literal literal rest
  | name name words =>
    intro rest hrest
    rw [List.cons_append, parts_operand_name,
      parts_attributes_append words (hrest.head?_ne _ (by decide))]
    rfl
  | @parentheses ts e _ ih =>
    intro rest _
    have hends : Level.Ends .disjunction (.rightParenthesis :: rest) :=
      Level.ends_cons (by decide) _
    rw [List.cons_append, List.append_assoc, List.singleton_append, parts_operand_parenthesis,
      ih.disjunction_eq hends]
    rfl
  | emptyList =>
    intro rest _
    rw [List.cons_append, parts_operand_bracket, List.singleton_append, parts_items_bracket]
    rfl
  | @list ts es _ ih =>
    intro rest _
    rw [List.cons_append, List.append_assoc, List.singleton_append, parts_operand_bracket,
      ih es rest rfl]
    rfl
  | @lastItem ts e h ih =>
    intro es rest heq
    cases heq
    have hbegins := (h.beginsOperand (by decide)).append (.rightBracket :: rest)
    rw [parts_items_of_ne hbegins.head?_ne_bracket, ih _ (Level.ends_cons (by decide) _)]
    rfl
  | @lastComma ts e h ih =>
    intro es rest heq
    cases heq
    have hbegins := (h.beginsOperand (by decide)).append (.comma :: .rightBracket :: rest)
    rw [List.append_assoc, List.singleton_append, parts_items_of_ne hbegins.head?_ne_bracket,
      ih _ (Level.ends_cons (by decide) _)]
    show parts (items (.rightBracket :: rest)) >>= _ = _
    rw [parts_items_bracket]
    rfl
  | @moreItems ts us e es h _ ih ihmore =>
    intro es' rest heq
    cases heq
    have hbegins := (h.beginsOperand (by decide)).append (.comma :: (us ++ .rightBracket :: rest))
    rw [List.append_assoc, List.cons_append, parts_items_of_ne hbegins.head?_ne_bracket,
      ih _ (Level.ends_cons (by decide) _)]
    show parts (items (us ++ .rightBracket :: rest)) >>= _ = _
    rw [ihmore es rest rfl]
    rfl

/-! ## Reading whole conditions -/

theorem ofTokens_eq_ok_iff {tokens : List Token} {e : Expression} :
    Expression.ofTokens tokens = .ok e ↔ parts (disjunction tokens) = .ok (e, []) := by
  unfold Expression.ofTokens
  cases disjunction tokens with
  | error fault =>
    constructor
    · intro h
      cases h
    · intro h
      cases h
  | ok parsed =>
    obtain ⟨value, rest, shorter⟩ := parsed
    cases rest with
    | nil => simp [parts, Except.map]
    | cons token rest => simp [parts, Except.map]

theorem ofTokens_of_derives {tokens : List Token} {e : Expression}
    (h : Derives .disjunction tokens e) : Expression.ofTokens tokens = .ok e := by
  have hread := h.completes.disjunction_eq (Level.ends_nil _)
  rw [List.append_nil] at hread
  exact ofTokens_eq_ok_iff.2 hread

theorem derives_of_ofTokens {tokens : List Token} {e : Expression}
    (h : Expression.ofTokens tokens = .ok e) : Derives .disjunction tokens e := by
  obtain ⟨read, rfl, hread⟩ := derived_of_disjunction (ofTokens_eq_ok_iff.1 h)
  rwa [List.append_nil]

/-- Tokens are read as an expression if and only if the grammar derives it from them, and it derives
one at most. All other tokens are refused with a fault. -/
theorem ofTokens_eq_ok_iff_derives (tokens : List Token) :
    (∀ e, Expression.ofTokens tokens = .ok e ↔ Derives .disjunction tokens e) ∧
    (∀ e e', Derives .disjunction tokens e → Derives .disjunction tokens e' → e = e') ∧
    ((∃ fault, Expression.ofTokens tokens = .error fault) ↔
      ∀ e, ¬Derives .disjunction tokens e) := by
  refine ⟨fun e => ⟨derives_of_ofTokens, ofTokens_of_derives⟩, ?_, ?_, ?_⟩
  · intro e e' h h'
    have heq := (ofTokens_of_derives h).symm.trans (ofTokens_of_derives h')
    cases heq
    rfl
  · rintro ⟨fault, hfault⟩ e h
    rw [ofTokens_of_derives h] at hfault
    cases hfault
  · intro hnone
    cases h : Expression.ofTokens tokens with
    | error fault => exact ⟨fault, rfl⟩
    | ok e => exact absurd (derives_of_ofTokens h) (hnone e)

end Stencil.Condition
