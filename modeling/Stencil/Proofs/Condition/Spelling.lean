import Stencil.Condition.Token.Lexer
import Stencil.Proofs.Condition.Reading

/-!
# The spelling of tokens

What is cut off at the start of a text is told by its first character, with one equation for each
kind of character (`cut_sign` to `cut_word`). From these follow both directions between tokens and
texts: tokens that are cut from a text are well formed (`wellFormed_of_tokens`), and the spellings
of well-formed tokens, with spaces between them, are cut into these tokens again (`tokens_spell`).
-/

namespace Stencil.Condition

/-! ## Well-formed tokens -/

/-- Whether a text is a name: an identifier that is no keyword. -/
def isName (text : String) : Bool :=
  Text.isIdentifier text.toList && !(Token.keywords.map Prod.fst).contains text

/-- An integer of 64 bits, one of which is its sign. -/
def IsInteger (value : Int) : Prop :=
  minInteger ≤ value ∧ value ≤ maxInteger

/-- The names are names and the integers have 64 bits. -/
def Token.WellFormed : Token → Prop
  | .name text => isName text
  | .integer value => IsInteger value
  | _ => True

theorem ofWord_of_isName {text : String} (h : isName text) : Token.ofWord text = .name text := by
  obtain ⟨-, hkeyword⟩ := Bool.and_eq_true_iff.1 h
  rw [Bool.not_eq_true', Bool.eq_false_iff, Ne, List.contains_iff_mem] at hkeyword
  unfold Token.ofWord
  rw [List.lookup_eq_none_iff.2]
  · rfl
  · intro entry hentry
    rw [bne_iff_ne]
    rintro rfl
    exact hkeyword (List.mem_map_of_mem hentry)

theorem wellFormed_ofWord {word : List Char} (h : Text.isIdentifier word) :
    (Token.ofWord (String.ofList word)).WellFormed := by
  by_cases hkeyword : String.ofList word ∈ Token.keywords.map Prod.fst
  · simp only [Token.keywords, List.map_cons, List.map_nil, List.mem_cons, List.not_mem_nil,
      or_false] at hkeyword
    obtain hw | hw | hw | hw | hw | hw | hw | hw | hw := hkeyword <;> rw [hw] <;> trivial
  · have hname : isName (String.ofList word) := by
      rw [isName, Bool.and_eq_true_iff, Bool.not_eq_true', Bool.eq_false_iff, Ne,
        List.contains_iff_mem, String.toList_ofList]
      exact ⟨h, hkeyword⟩
    rw [ofWord_of_isName hname]
    exact hname

theorem isInteger_of_numeral {text : List Char} {value : Int} (h : numeral text = .ok value) :
    IsInteger value := by
  unfold numeral at h
  unfold IsInteger minInteger maxInteger at *
  split at h
  · split at h
    · cases h
    · split at h
      · cases h
      · cases h
        omega
  · split at h
    · cases h
    · cases h
      omega

/-! ## One lexeme -/

/-- The lexeme at the start of a text, no matter how much shorter what follows it is. -/
def cut (c : Char) (cs : List Char) : Except SyntaxFault Lexeme :=
  (lexeme c cs).map Subtype.val

theorem length_of_cut {c : Char} {cs : List Char} {first : Lexeme} (h : cut c cs = .ok first) :
    first.rest.length < (c :: cs).length := by
  unfold cut at h
  cases hread : lexeme c cs with
  | error fault =>
    rw [hread] at h
    cases h
  | ok read =>
    rw [hread] at h
    cases h
    exact read.property

/-- The tokens of one character. -/
def signs : List (Char × Token) :=
  [('(', .leftParenthesis), (')', .rightParenthesis), ('[', .leftBracket), (']', .rightBracket),
    (',', .comma), ('.', .dot)]

theorem wellFormed_of_mem_signs : ∀ entry ∈ signs, entry.2.WellFormed := by
  simp [signs, Token.WellFormed]

/-- The characters that are a sign or begin one. -/
def signCharacters : List Char := signs.map Prod.fst ++ ['=', '!']

/-- The characters around a string literal. -/
def quotes : List Char := ['"', '\'']

/-- The characters that may stand between two tokens. -/
def spaces : List Char := [' ', '\t', '\n', Char.ofNat 0x0C, '\r']

theorem isSpace_iff {c : Char} : isSpace c ↔ c ∈ spaces := by
  have hfeed : c.toNat = 0x0C ↔ c = Char.ofNat 0x0C := by
    constructor
    · intro h
      rw [← h, Char.ofNat_toNat]
    · rintro rfl
      rfl
  simp only [isSpace, spaces, Bool.or_eq_true, decide_eq_true_eq, List.mem_cons, List.not_mem_nil,
    hfeed, or_false, or_assoc]

/-- A character of one kind is none of the characters of other kinds. -/
theorem not_mem_of_kind {kind : Char → Bool} {c : Char} (hc : kind c) {others : List Char}
    (h : others.any kind = false) : c ∉ others := by
  intro hmem
  rw [List.any_eq_false] at h
  exact h c hmem hc

section cut

variable {c : Char} (cs : List Char)

theorem cut_sign {token : Token} (h : (c, token) ∈ signs) :
    cut c cs = .ok ⟨some token, 1, cs⟩ := by
  simp only [signs, List.mem_cons, Prod.mk.injEq, List.not_mem_nil, or_false] at h
  obtain ⟨rfl, rfl⟩ | ⟨rfl, rfl⟩ | ⟨rfl, rfl⟩ | ⟨rfl, rfl⟩ | ⟨rfl, rfl⟩ | ⟨rfl, rfl⟩ := h <;> rfl

theorem cut_equals :
    cut '=' cs =
      if cs.head? = some '=' then .ok ⟨some .equal, 2, cs.tail⟩ else .error .singleEquals := by
  cases cs with
  | nil => rfl
  | cons d ds =>
    by_cases hd : d = '='
    · subst hd
      rfl
    · simp [cut, lexeme, hd, Except.map]

theorem cut_bang :
    cut '!' cs =
      if cs.head? = some '=' then .ok ⟨some .notEqual, 2, cs.tail⟩ else .error .singleBang := by
  cases cs with
  | nil => rfl
  | cons d ds =>
    by_cases hd : d = '='
    · subst hd
      rfl
    · simp [cut, lexeme, hd, Except.map]

theorem cut_quote (h : c ∈ quotes) :
    cut c cs =
      match stringRest? c cs with
      | some (text, size, rest) => .ok ⟨some (.string (String.ofList text)), 1 + size, rest⟩
      | none => .error .openString := by
  have hquote' : c = '"' ∨ c = '\'' := by simpa [quotes] using h
  have hquote : (c = '"' || c = '\'') = true := by simpa using hquote'
  have hsign : c ∉ signCharacters := by
    obtain rfl | rfl := hquote' <;> decide
  simp only [signCharacters, signs, List.map_cons, List.map_nil, List.mem_append, List.mem_cons,
    List.not_mem_nil, or_false, not_or] at hsign
  simp only [cut, lexeme, hsign, hquote, if_true, if_false]
  split <;> next hrest => simp only [hrest, Except.map]

theorem cut_space (h : isSpace c) :
    cut c cs = .ok ⟨none, 1 + (cs.takeWhile isSpace).length, cs.dropWhile isSpace⟩ := by
  have hbefore : c ∉ signCharacters ++ quotes := not_mem_of_kind h (by rfl)
  simp only [signCharacters, signs, quotes, List.map_cons, List.map_nil, List.mem_append,
    List.mem_cons, List.not_mem_nil, or_false, not_or] at hbefore
  simp [cut, lexeme, hbefore, h, Except.map]

theorem cut_numeral (h : c.isDigit || c = '-') :
    cut c cs =
      match numeral (c :: cs.takeWhile Char.isDigit) with
      | .ok value =>
        .ok ⟨some (.integer value), (c :: cs.takeWhile Char.isDigit).length,
          cs.dropWhile Char.isDigit⟩
      | .error fault =>
        .error (.numeral (String.ofList (c :: cs.takeWhile Char.isDigit)) fault) := by
  have hbefore : c ∉ signCharacters ++ (quotes ++ spaces) :=
    @not_mem_of_kind (fun c => c.isDigit || c = '-') c h _ (by rfl)
  rw [List.mem_append, List.mem_append, ← isSpace_iff] at hbefore
  simp only [signCharacters, signs, quotes, List.map_cons, List.map_nil, List.mem_append,
    List.mem_cons, List.not_mem_nil, or_false, not_or] at hbefore
  simp only [cut, lexeme, hbefore, h, decide_false, Bool.or_self, Bool.false_eq_true, if_false,
    if_true]
  cases numeral (c :: cs.takeWhile Char.isDigit) <;> rfl

theorem cut_word (h : Text.isIdentifierStart c) :
    cut c cs =
      .ok ⟨some (.ofWord (String.ofList (c :: cs.takeWhile Text.isIdentifierChar))),
        (c :: cs.takeWhile Text.isIdentifierChar).length, cs.dropWhile Text.isIdentifierChar⟩ := by
  have hbefore : c ∉ '-' :: signCharacters ++ (quotes ++ spaces) := not_mem_of_kind h (by rfl)
  have hdigit : c.isDigit = false := Text.isDigit_of_isIdentifierStart h
  rw [List.mem_append, List.mem_append, ← isSpace_iff] at hbefore
  simp only [signCharacters, signs, quotes, List.map_cons, List.map_nil, List.mem_append,
    List.mem_cons, List.not_mem_nil, or_false, not_or] at hbefore
  simp only [cut, lexeme, hbefore, hdigit, h, decide_false, Bool.or_self, Bool.false_eq_true,
    if_false, if_true]
  rfl

theorem cut_other (hsign : c ∉ signCharacters) (hquote : c ∉ quotes) (hspace : isSpace c = false)
    (hnumeral : (c.isDigit || c = '-') = false) (hword : Text.isIdentifierStart c = false) :
    cut c cs = .error (.character c) := by
  simp only [signCharacters, signs, quotes, List.map_cons, List.map_nil, List.mem_append,
    List.mem_cons, List.not_mem_nil, or_false, not_or] at hsign hquote
  simp only [cut, lexeme, hsign, hquote, hspace, hnumeral, hword, decide_false, Bool.or_self,
    Bool.false_eq_true, if_false]
  rfl

end cut

/-- What can be cut off at the start of a text, by kinds of characters. -/
inductive Cut (c : Char) (cs : List Char) : Lexeme → Prop where
  | sign {token : Token} (h : (c, token) ∈ signs) : Cut c cs ⟨some token, 1, cs⟩
  | operator {token : Token} {rest : List Char} (hrest : cs = '=' :: rest)
      (h : (c, token) ∈ [('=', Token.equal), ('!', .notEqual)]) : Cut c cs ⟨some token, 2, rest⟩
  | string {text rest : List Char} {size : Nat} (h : c ∈ quotes)
      (hrest : stringRest? c cs = some (text, size, rest)) :
    Cut c cs ⟨some (.string (String.ofList text)), 1 + size, rest⟩
  | space (h : isSpace c) :
    Cut c cs ⟨none, 1 + (cs.takeWhile isSpace).length, cs.dropWhile isSpace⟩
  | numeral {value : Int} (h : c.isDigit || c = '-')
      (hvalue : numeral (c :: cs.takeWhile Char.isDigit) = .ok value) :
    Cut c cs ⟨some (.integer value), (c :: cs.takeWhile Char.isDigit).length,
      cs.dropWhile Char.isDigit⟩
  | word (h : Text.isIdentifierStart c) :
    Cut c cs ⟨some (.ofWord (String.ofList (c :: cs.takeWhile Text.isIdentifierChar))),
      (c :: cs.takeWhile Text.isIdentifierChar).length, cs.dropWhile Text.isIdentifierChar⟩

/-- What is cut off is of one of these kinds. -/
theorem Cut.of_cut {c : Char} {cs : List Char} {first : Lexeme} (h : cut c cs = .ok first) :
    Cut c cs first := by
  by_cases hsign : ∃ sign, (c, sign) ∈ signs
  · obtain ⟨sign, hmem⟩ := hsign
    rw [cut_sign cs hmem] at h
    cases h
    exact .sign hmem
  by_cases hequals : c = '='
  · subst hequals
    rw [cut_equals] at h
    split at h <;> cases h
    next hhead =>
      obtain ⟨rest, rfl⟩ := List.head?_eq_some_iff.1 hhead
      exact .operator rfl List.mem_cons_self
  by_cases hbang : c = '!'
  · subst hbang
    rw [cut_bang] at h
    split at h <;> cases h
    next hhead =>
      obtain ⟨rest, rfl⟩ := List.head?_eq_some_iff.1 hhead
      exact .operator rfl (List.mem_cons_of_mem _ List.mem_cons_self)
  by_cases hquote : c ∈ quotes
  · rw [cut_quote cs hquote] at h
    split at h <;> cases h
    next hrest => exact .string hquote hrest
  by_cases hspace : isSpace c
  · rw [cut_space cs hspace] at h
    cases h
    exact .space hspace
  by_cases hnumeral : c.isDigit || c = '-'
  · rw [cut_numeral cs hnumeral] at h
    split at h <;> cases h
    next hvalue => exact .numeral hnumeral hvalue
  by_cases hword : Text.isIdentifierStart c
  · rw [cut_word cs hword] at h
    cases h
    exact .word hword
  have hnone : c ∉ signCharacters := by
    simp only [signCharacters, List.mem_append, List.mem_map, Prod.exists, exists_and_right,
      exists_eq_right, List.mem_cons, List.not_mem_nil, or_false, not_or]
    exact ⟨hsign, hequals, hbang⟩
  rw [Bool.not_eq_true] at hspace hnumeral hword
  rw [cut_other cs hnone hquote hspace hnumeral hword] at h
  cases h

/-- What is cut off at the start of a text is a well-formed token, if it is a token. -/
theorem wellFormed_of_cut {c : Char} {cs : List Char} {first : Lexeme} {token : Token}
    (h : cut c cs = .ok first) (htoken : first.token = some token) : token.WellFormed := by
  cases Cut.of_cut h with
  | sign hsign =>
    cases htoken
    exact wellFormed_of_mem_signs _ hsign
  | operator _ hoperator =>
    cases htoken
    simp only [List.mem_cons, Prod.mk.injEq, List.not_mem_nil, or_false] at hoperator
    obtain ⟨-, rfl⟩ | ⟨-, rfl⟩ := hoperator <;> trivial
  | string =>
    cases htoken
    trivial
  | space => cases htoken
  | numeral _ hvalue =>
    cases htoken
    exact isInteger_of_numeral hvalue
  | word hword =>
    cases htoken
    apply wellFormed_ofWord
    rw [Text.isIdentifier, hword, Bool.true_and]
    exact List.all_takeWhile

/-! ## All tokens -/

theorem tokens_nil : tokens [] = .ok [] := by
  unfold tokens lexemes
  rfl

theorem tokens_cons (c : Char) (cs : List Char) :
    tokens (c :: cs) =
      cut c cs >>= fun first => (tokens first.rest).map (first.token.toList ++ ·) := by
  unfold tokens
  rw [lexemes, cut]
  cases lexeme c cs with
  | error fault => rfl
  | ok read =>
    obtain ⟨first, shorter⟩ := read
    show _ = Except.map _ (Except.map _ (lexemes first.rest))
    dsimp only
    cases lexemes first.rest with
    | error fault => rfl
    | ok more =>
      cases hfirst : first.token <;> simp [Except.map, hfirst]

/-- By induction on the length of the text, since each lexeme leaves less of it. -/
theorem wellFormed_of_tokens {text : List Char} {read : List Token} (h : tokens text = .ok read) :
    ∀ token ∈ read, token.WellFormed := by
  generalize hlength : text.length = length
  induction length using Nat.strongRecOn generalizing text read with
  | ind length ih =>
    cases text with
    | nil =>
      rw [tokens_nil] at h
      cases h
      exact fun token hmem => absurd hmem List.not_mem_nil
    | cons c cs =>
      rw [tokens_cons, bind_eq_ok_iff] at h
      obtain ⟨first, hfirst, hmore⟩ := h
      have hshorter : first.rest.length < length := hlength ▸ length_of_cut hfirst
      cases hrest : tokens first.rest with
      | error fault =>
        rw [hrest] at hmore
        cases hmore
      | ok more =>
        rw [hrest] at hmore
        cases hmore
        rw [List.forall_mem_append]
        refine ⟨fun token htoken => ?_, ih _ hshorter hrest rfl⟩
        exact wellFormed_of_cut hfirst (Option.mem_toList.1 htoken)

theorem tokens_dropWhile_isSpace (text : List Char) :
    tokens (text.dropWhile isSpace) = tokens text := by
  cases text with
  | nil => rfl
  | cons c cs =>
    by_cases hc : isSpace c
    · rw [List.dropWhile_cons_of_pos hc, tokens_cons, cut_space cs hc]
      show _ = (tokens (cs.dropWhile isSpace)).map ([] ++ ·)
      cases tokens (cs.dropWhile isSpace) <;> rfl
    · rw [List.dropWhile_cons_of_neg hc]

theorem tokens_space (text : List Char) : tokens (' ' :: text) = tokens text := by
  rw [← tokens_dropWhile_isSpace, List.dropWhile_cons_of_pos (by decide),
    tokens_dropWhile_isSpace]

/-! ## Spelling -/

/-- The two quotation marks. -/
inductive Quote where
  | single
  | double
  deriving DecidableEq, Repr

namespace Quote

/-- The character of a quotation mark. -/
def char : Quote → Char
  | .single => '\''
  | .double => '"'

/-- A character within a string: a backslash stands before the quotation mark and a backslash. -/
def escape (quote : Quote) (c : Char) : List Char :=
  if c = '\\' ∨ c = quote.char then ['\\', c] else [c]

end Quote

/-- The text of a token; `quote` says which quotation marks stand around a string. -/
def Token.spelling (quote : String → Quote) : Token → List Char
  | .name text => text.toList
  | .string text =>
    (quote text).char :: (text.toList.flatMap (quote text).escape ++ [(quote text).char])
  | .integer value => value.repr.toList
  | .true => "True".toList
  | .false => "False".toList
  | .none => "None".toList
  | .and => "and".toList
  | .or => "or".toList
  | .not => "not".toList
  | .in => "in".toList
  | .equal => "==".toList
  | .notEqual => "!=".toList
  | .leftParenthesis => ['(']
  | .rightParenthesis => [')']
  | .leftBracket => ['[']
  | .rightBracket => [']']
  | .comma => [',']
  | .dot => ['.']

/-- The text of tokens, with a space between any two. -/
def spell (quote : String → Quote) (tokens : List Token) : List Char :=
  [' '].intercalate (tokens.map (Token.spelling quote))

/-- The text begins with the token, and `rest` follows it. -/
def Begins (text : List Char) (token : Token) (rest : List Char) : Prop :=
  ∃ c cs size, text = c :: cs ∧ cut c cs = .ok ⟨some token, size, rest⟩

theorem tokens_of_begins {text rest : List Char} {token : Token} (h : Begins text token rest) :
    tokens text = (tokens rest).map (token :: ·) := by
  obtain ⟨c, cs, size, rfl, hcut⟩ := h
  rw [tokens_cons, hcut]
  rfl

/-- Nothing follows, or a space. -/
def Separated (rest : List Char) : Prop :=
  ∀ c, rest.head? = some c → c = ' '

theorem separated_nil : Separated [] := by
  intro c hc
  cases hc

theorem separated_space (rest : List Char) : Separated (' ' :: rest) := by
  intro c hc
  cases hc
  rfl

section Begins

variable {rest : List Char} (hrest : Separated rest)
include hrest

theorem Separated.stops {kind : Char → Bool} (hkind : kind ' ' = false) :
    ∀ c, rest.head? = some c → kind c = false := by
  intro c hc
  rw [hrest c hc]
  exact hkind

theorem begins_word {word : List Char} (h : Text.isIdentifier word) :
    Begins (word ++ rest) (.ofWord (String.ofList word)) rest := by
  cases word with
  | nil => cases h
  | cons c cs =>
    obtain ⟨hc, hcs⟩ := Bool.and_eq_true_iff.1 h
    obtain ⟨htake, hdrop⟩ := Text.takeWhile_append_of_stop hcs (hrest.stops (by decide))
    refine ⟨c, cs ++ rest, (c :: cs).length, rfl, ?_⟩
    rw [cut_word _ hc, htake, hdrop]

theorem begins_numeral {c : Char} {cs : List Char} {value : Int} (hc : c.isDigit || c = '-')
    (hcs : cs.all Char.isDigit) (hvalue : numeral (c :: cs) = .ok value) :
    Begins (c :: cs ++ rest) (.integer value) rest := by
  obtain ⟨htake, hdrop⟩ := Text.takeWhile_append_of_stop hcs (hrest.stops (by decide))
  refine ⟨c, cs ++ rest, (c :: cs).length, rfl, ?_⟩
  rw [cut_numeral _ hc, htake, hdrop, hvalue]

end Begins

theorem numeral_of_digits {digits : List Char} (h : digits.all Char.isDigit)
    (hmax : Text.digitsValue digits ≤ maxInteger) :
    numeral digits = .ok (Text.digitsValue digits) := by
  unfold numeral
  split
  · cases h
  · exact if_neg (Int.not_lt.2 hmax)

theorem numeral_of_minus {digits : List Char} (h : digits ≠ [])
    (hmin : minInteger ≤ -Text.digitsValue digits) :
    numeral ('-' :: digits) = .ok (-Text.digitsValue digits) := by
  show (if digits.isEmpty then _ else if _ then _ else _) = _
  rw [if_neg (by simpa using h), if_neg (Int.not_lt.2 hmin)]

/-- The digits of a number are digits, and the number is what they stand for. -/
theorem toDigits_spec (n : Nat) :
    (Nat.toDigits 10 n).all Char.isDigit ∧ Text.digitsValue (Nat.toDigits 10 n) = n := by
  refine ⟨?_, Nat.ofDigitChars_ten_toDigits⟩
  rw [List.all_eq_true]
  intro c hc
  exact Nat.isDigit_of_mem_toDigits (by decide) (by decide) hc

theorem begins_integer {value : Int} (h : IsInteger value) {rest : List Char}
    (hrest : Separated rest) : Begins (value.repr.toList ++ rest) (.integer value) rest := by
  obtain ⟨hmin, hmax⟩ := h
  rw [Int.repr_eq_if]
  split
  · next hsign =>
    obtain ⟨hdigits, hvalue⟩ := toDigits_spec value.toNat
    have hnumber : (value.toNat : Int) = value := Int.toNat_of_nonneg hsign
    have hnumeral := numeral_of_digits hdigits (by rw [hvalue, hnumber]; exact hmax)
    rw [hvalue, hnumber] at hnumeral
    rw [Nat.toList_repr]
    cases hcs : Nat.toDigits 10 value.toNat with
    | nil => exact absurd hcs Nat.toDigits_ne_nil
    | cons c cs =>
      rw [hcs] at hdigits hnumeral
      obtain ⟨hc, hcs⟩ := Bool.and_eq_true_iff.1 hdigits
      exact begins_numeral hrest (by rw [hc]; rfl) hcs hnumeral
  · next hsign =>
    obtain ⟨hdigits, hvalue⟩ := toDigits_spec (-value).toNat
    have hnumber : -((-value).toNat : Int) = value := by omega
    have hnumeral := numeral_of_minus Nat.toDigits_ne_nil
      (by rw [hvalue, hnumber]; exact hmin)
    rw [hvalue, hnumber] at hnumeral
    rw [String.toList_append, Nat.toList_repr]
    exact begins_numeral hrest (c := '-') rfl hdigits hnumeral

theorem stringRest?_escape (quote : Quote) (text rest : List Char) :
    ∃ size, stringRest? quote.char (text.flatMap quote.escape ++ quote.char :: rest) =
      some (text, size, rest) := by
  induction text with
  | nil => cases quote <;> exact ⟨_, rfl⟩
  | cons c cs ih =>
    obtain ⟨size, hsize⟩ := ih
    rw [List.flatMap_cons, List.append_assoc]
    by_cases hc : c = '\\' ∨ c = quote.char
    · have hescaped : unescape c = c := by
        obtain rfl | rfl := hc
        · rfl
        · cases quote <;> rfl
      rw [Quote.escape, if_pos hc, List.cons_append, List.cons_append, List.nil_append,
        stringRest?, hsize, Option.map_some, hescaped]
      exact ⟨_, rfl⟩
    · obtain ⟨hbackslash, hquote⟩ := not_or.1 hc
      rw [Quote.escape, if_neg hc, List.singleton_append,
        stringRest?.eq_3 _ _ _ (by simp [hbackslash]), if_neg hquote, hsize]
      exact ⟨_, rfl⟩

/-- A well-formed token is read off the start of its spelling. -/
theorem begins_spelling (quote : String → Quote) {token : Token} (h : token.WellFormed)
    {rest : List Char} (hrest : Separated rest) :
    Begins (token.spelling quote ++ rest) token rest := by
  cases token with
  | name text =>
    have hword := begins_word hrest (Bool.and_eq_true_iff.1 h).1
    rwa [String.ofList_toList, ofWord_of_isName h] at hword
  | string text =>
    obtain ⟨size, hsize⟩ := stringRest?_escape (quote text) text.toList rest
    have hspelling : (Token.string text).spelling quote ++ rest =
        (quote text).char :: (text.toList.flatMap (quote text).escape ++
          (quote text).char :: rest) := by
      rw [Token.spelling, List.cons_append, List.append_assoc, List.singleton_append]
    refine ⟨_, _, 1 + size, hspelling, ?_⟩
    rw [cut_quote _ (by cases quote text <;> decide), hsize]
    dsimp only
    rw [String.ofList_toList]
  | integer value => exact begins_integer h hrest
  | true | false | none | and | or | not | «in» => exact begins_word hrest rfl
  | equal => exact ⟨_, _, _, rfl, cut_equals _⟩
  | notEqual => exact ⟨_, _, _, rfl, cut_bang _⟩
  | leftParenthesis | rightParenthesis | leftBracket | rightBracket | comma | dot =>
    exact ⟨_, _, _, rfl, cut_sign _ (by decide)⟩

/-- Tokens are cut from their spellings with spaces between them. -/
theorem tokens_spell (quote : String → Quote) {read : List Token}
    (h : ∀ token ∈ read, token.WellFormed) : tokens (spell quote read) = .ok read := by
  unfold spell
  induction read with
  | nil => exact tokens_nil
  | cons token more ih =>
    obtain ⟨htoken, hmore⟩ := List.forall_mem_cons.1 h
    cases more with
    | nil =>
      have hbegins := begins_spelling quote htoken separated_nil
      rw [List.append_nil] at hbegins
      rw [List.map_singleton, List.intercalate_singleton, tokens_of_begins hbegins, tokens_nil]
      rfl
    | cons next more =>
      have hspelled := ih hmore
      rw [List.map_cons] at hspelled
      have hbegins := begins_spelling quote htoken (separated_space
        ([' '].intercalate (next.spelling quote :: more.map (Token.spelling quote))))
      rw [List.map_cons, List.map_cons, List.intercalate_cons_cons, List.append_assoc,
        List.singleton_append, tokens_of_begins hbegins, tokens_space, hspelled]
      rfl

end Stencil.Condition
