import Stencil.Proofs.Condition.Spelling

/-!
# Texts that are put together

The tokens of two texts, one after the other, are the tokens of the first and then those of the
second, provided that no word or numeral of the first goes on in the second (`tokens_append`). So
the tokens of a text can be told from those of its parts.
-/

namespace Stencil.Condition

/-- No word or numeral goes on with the text. -/
def EndsWord (rest : List Char) : Prop :=
  ∀ c, rest.head? = some c → Text.isIdentifierChar c = false

theorem endsWord_cons {c : Char} (h : Text.isIdentifierChar c = false) (rest : List Char) :
    EndsWord (c :: rest) := by
  intro d hd
  cases hd
  exact h

theorem isDigit_eq_false_of_isIdentifierChar {c : Char} (h : Text.isIdentifierChar c = false) :
    c.isDigit = false := by
  rw [Text.isIdentifierChar, Bool.or_eq_false_iff, Char.isAlphanum, Bool.or_eq_false_iff] at h
  exact h.1.2

section append

variable {rest : List Char}

theorem takeWhile_append_of_head? {kind : Char → Bool}
    (h : ∀ c, rest.head? = some c → kind c = false) (cs : List Char) :
    (cs ++ rest).takeWhile kind = cs.takeWhile kind ∧
      (cs ++ rest).dropWhile kind = cs.dropWhile kind ++ rest := by
  induction cs with
  | nil =>
    cases rest with
    | nil => exact ⟨rfl, rfl⟩
    | cons c rest => simp [h c rfl]
  | cons c cs ih => by_cases hc : kind c <;> simp [hc, ih]

theorem stringRest?_append {quote : Char} (hquote : quote ≠ '\\') {cs text left : List Char}
    {size : Nat} (h : stringRest? quote cs = some (text, size, left)) :
    stringRest? quote (cs ++ rest) = some (text, size, left ++ rest) := by
  fun_induction stringRest? quote cs generalizing text size left with
  | case1 => cases h
  | case2 c cs ih =>
    obtain ⟨⟨text', size', left'⟩, hcs, heq⟩ := Option.map_eq_some_iff.1 h
    cases heq
    rw [List.cons_append, List.cons_append, stringRest?, ih hcs]
    rfl
  | case3 cs =>
    cases h
    rw [List.cons_append, stringRest?.eq_3 _ _ _ (by simp [hquote]), if_pos rfl]
  | case4 c cs hescape hc ih =>
    obtain ⟨⟨text', size', left'⟩, hcs, heq⟩ := Option.map_eq_some_iff.1 h
    cases heq
    cases cs with
    | nil => cases hcs
    | cons d ds =>
      have hbackslash : c ≠ '\\' := fun hc => hescape d ds hc rfl
      rw [List.cons_append, stringRest?.eq_3 _ _ _ (by simp [hbackslash]), if_neg hc, ih hcs]
      rfl

/-- What is cut off at the start of a text does not depend on a text after it. -/
theorem cut_append (hrest : EndsWord rest) {c : Char} {cs : List Char} {first : Lexeme}
    (hspace : ¬ isSpace c) (h : cut c cs = .ok first) :
    cut c (cs ++ rest) = .ok { first with rest := first.rest ++ rest } := by
  by_cases hsign : ∃ sign, (c, sign) ∈ signs
  · obtain ⟨sign, hmem⟩ := hsign
    rw [cut_sign _ hmem] at h ⊢
    cases h
    rfl
  by_cases hequals : c = '='
  · subst hequals
    rw [cut_equals] at h ⊢
    cases cs with
    | nil => cases h
    | cons d ds =>
      split at h <;> cases h
      next hd => exact if_pos hd
  by_cases hbang : c = '!'
  · subst hbang
    rw [cut_bang] at h ⊢
    cases cs with
    | nil => cases h
    | cons d ds =>
      split at h <;> cases h
      next hd => exact if_pos hd
  by_cases hquote : c ∈ quotes
  · have hbackslash : c ≠ '\\' := by
      rintro rfl
      exact absurd hquote (by decide)
    rw [cut_quote _ hquote] at h ⊢
    split at h <;> cases h
    next hstring => rw [stringRest?_append hbackslash hstring]
  by_cases hnumeral : c.isDigit || c = '-'
  · obtain ⟨htake, hdrop⟩ := takeWhile_append_of_head?
      (fun c hc => isDigit_eq_false_of_isIdentifierChar (hrest c hc)) cs
    rw [cut_numeral _ hnumeral] at h ⊢
    rw [htake, hdrop]
    split at h <;> cases h
    next hvalue => rw [hvalue]
  by_cases hword : Text.isIdentifierStart c
  · obtain ⟨htake, hdrop⟩ := takeWhile_append_of_head? hrest cs
    rw [cut_word _ hword] at h ⊢
    rw [htake, hdrop]
    cases h
    rfl
  have hnone : c ∉ signCharacters := by
    simp only [signCharacters, List.mem_append, List.mem_map, Prod.exists, exists_and_right,
      exists_eq_right, List.mem_cons, List.not_mem_nil, or_false, not_or]
    exact ⟨hsign, hequals, hbang⟩
  rw [Bool.not_eq_true] at hspace hnumeral hword
  rw [cut_other cs hnone hquote hspace hnumeral hword] at h
  cases h

theorem tokens_cons_of_isSpace {c : Char} (hc : isSpace c) (cs : List Char) :
    tokens (c :: cs) = tokens cs := by
  rw [← tokens_dropWhile_isSpace, List.dropWhile_cons_of_pos hc, tokens_dropWhile_isSpace]

/-- By induction on the length of the first text. Spaces at its end are one lexeme with those at the
start of the second, so spaces are passed over one by one and only other lexemes are compared. -/
theorem tokens_append (hrest : EndsWord rest) {text : List Char} {ts : List Token}
    (h : tokens text = .ok ts) : tokens (text ++ rest) = (tokens rest).map (ts ++ ·) := by
  generalize hlength : text.length = length
  induction length using Nat.strongRecOn generalizing text ts with
  | ind length ih =>
    cases text with
    | nil =>
      rw [tokens_nil] at h
      cases h
      cases htokens : tokens rest <;> simp [htokens, Except.map]
    | cons c cs =>
      by_cases hspace : isSpace c
      · rw [tokens_cons_of_isSpace hspace] at h
        rw [List.cons_append, tokens_cons_of_isSpace hspace]
        exact ih cs.length (by simp [← hlength]) h rfl
      · rw [tokens_cons, bind_eq_ok_iff] at h
        obtain ⟨first, hfirst, h⟩ := h
        obtain ⟨more, hmore, rfl⟩ := map_eq_ok_iff.1 h
        have hshorter : first.rest.length < length := hlength ▸ length_of_cut hfirst
        rw [List.cons_append, tokens_cons, cut_append hrest hspace hfirst]
        change (tokens (first.rest ++ rest)).map _ = _
        rw [ih _ hshorter hmore rfl]
        cases tokens rest <;> simp [Except.map]

theorem tokens_append_eq_ok {text : List Char} {ts us : List Token} (hrest : EndsWord rest)
    (h : tokens text = .ok ts) (hus : tokens rest = .ok us) :
    tokens (text ++ rest) = .ok (ts ++ us) := by
  rw [tokens_append hrest h, hus]
  rfl

end append

end Stencil.Condition
