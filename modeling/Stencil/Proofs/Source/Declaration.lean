import Stencil.Proofs.Source.Line
import Stencil.Source.Declaration

/-!
# What makes a line a declaration

Each part of a declaration, an identifier, a word with the blanks after it, a star or blanks,
brackets, an initializer, is read off its ink and off where blanks stand. So a text is a declaration
if and only if one that differs in its blanks is, and both declare the same identifier
(`alike_parseModifiers?`); and a line is a declaration before it is normalized if and only if it is
one afterwards (`isSome_parse?_normalize`).
-/

namespace Stencil.Source.Declaration

open Text

/-- Both readers fail, or they leave texts that differ in their blanks. -/
abbrev LeaveRespaced {α β : Type} : Option (α × List Char) → Option (β × List Char) → Prop :=
  Option.Rel fun a b => Respaced a.2 b.2

section rel

variable {α β γ δ : Type} {r : α → β → Prop} {x : Option α} {y : Option β}

theorem exists_of_rel_some (h : Option.Rel r x y) {a : α} (hx : x = some a) :
    ∃ b, y = some b ∧ r a b := by
  subst hx
  cases h with
  | some hab => exact ⟨_, rfl, hab⟩

theorem eq_none_of_rel_none (h : Option.Rel r x y) (hx : x = none) : y = none := by
  subst hx
  cases h
  rfl

theorem isSome_eq_of_rel (h : Option.Rel r x y) : x.isSome = y.isSome := by
  cases h <;> rfl

theorem rel_or {x' : Option α} {y' : Option β} (h : Option.Rel r x y) (h' : Option.Rel r x' y') :
    Option.Rel r (x.or x') (y.or y') := by
  cases h with
  | none => exact h'
  | some hab => exact .some hab

theorem rel_bind (h : Option.Rel r x y) {q : γ → δ → Prop} {f : α → Option γ} {g : β → Option δ}
    (hfg : ∀ a b, x = some a → y = some b → r a b → Option.Rel q (f a) (g b)) :
    Option.Rel q (x.bind f) (y.bind g) := by
  cases h with
  | none => exact .none
  | some hab => exact hfg _ _ rfl rfl hab

end rel

/-! ## Parts of a declaration -/

theorem isIdentifierChar_of_isBlank {c : Char} (h : isBlank c = true) :
    isIdentifierChar c = false := by
  have hne : c ≠ '_' := by
    rintro rfl
    exact absurd h (by decide)
  have hranges : c.toNat ≤ 0x20 ∨ 0x7F ≤ c.toNat := by
    simp only [isBlank, blankRanges, List.any_cons, List.any_nil, Bool.or_false, Bool.or_eq_true,
      Bool.and_eq_true, decide_eq_true_eq] at h
    omega
  rw [isIdentifierChar, Bool.or_eq_false_iff, decide_eq_false_iff_not]
  refine ⟨?_, hne⟩
  rw [Bool.eq_false_iff]
  delta Char.isAlphanum Char.isAlpha Char.isUpper Char.isLower Char.isDigit
  simp only [Ne, Bool.or_eq_true, Bool.and_eq_true, decide_eq_true_eq, ge_iff_le,
    UInt32.le_iff_toNat_le, Char.reduceVal, UInt32.reduceToNat, Char.toNat_val]
  omega

theorem isIdentifierStart_of_isBlank {c : Char} (h : isBlank c = true) :
    isIdentifierStart c = false := by
  have hchar := isIdentifierChar_of_isBlank h
  unfold isIdentifierChar Char.isAlphanum at hchar
  simp only [Bool.or_eq_false_iff] at hchar
  rw [isIdentifierStart, hchar.1.1, hchar.2, Bool.or_false]

variable {s t : List Char}

theorem identifier?_respaced (h : Respaced s t) :
    Option.Rel (fun a b => a.1 = b.1 ∧ Respaced a.2 b.2) (identifier? s) (identifier? t) := by
  cases h with
  | nil => exact .none
  | @ink c s t hc h =>
    obtain ⟨htake, hdrop⟩ :=
      h.takeWhile_eq_and_dropWhile fun _ hblank => isIdentifierChar_of_isBlank hblank
    cases hstart : isIdentifierStart c with
    | true =>
      simp only [identifier?, hstart, if_true]
      exact .some ⟨by rw [htake], hdrop⟩
    | false =>
      simp only [identifier?, hstart, Bool.false_eq_true, if_false]
      exact .none
  | @blanks a b s t ha hb hablank hbblank _ _ _ _ =>
    cases a with
    | nil => exact absurd rfl ha
    | cons c a =>
      cases b with
      | nil => exact absurd rfl hb
      | cons d b =>
        rw [List.all_cons, Bool.and_eq_true] at hablank hbblank
        simp only [List.cons_append, identifier?, isIdentifierStart_of_isBlank hablank.1,
          isIdentifierStart_of_isBlank hbblank.1]
        exact .none

theorem word?_respaced (words : List (List Char)) (h : Respaced s t) :
    LeaveRespaced (word? words s) (word? words t) := by
  have hrel := identifier?_respaced h
  unfold word?
  cases hs : identifier? s with
  | none =>
    rw [eq_none_of_rel_none hrel hs]
    exact .none
  | some a =>
    obtain ⟨b, ht, hword, hrest⟩ := exists_of_rel_some hrel hs
    have hblanks : (a.2.takeWhile isBlank).isEmpty = (b.2.takeWhile isBlank).isEmpty := by
      rw [Bool.eq_iff_iff, List.isEmpty_iff, List.isEmpty_iff]
      exact hrest.takeWhile_isBlank_eq_nil_iff
    simp only [ht, Option.bind_eq_bind, Option.bind_some, hword, hblanks]
    split
    · exact .some hrest.dropWhile_isBlank
    · exact .none

/-- After its blanks a text ends or goes on with the same ink. -/
theorem dropWhile_isBlank_cases (h : Respaced s t) :
    s.dropWhile isBlank = [] ∧ t.dropWhile isBlank = [] ∨
      ∃ c s' t', s.dropWhile isBlank = c :: s' ∧ t.dropWhile isBlank = c :: t' ∧
        Respaced s' t' := by
  have hdrop := h.dropWhile_isBlank
  cases hs : s.dropWhile isBlank with
  | nil =>
    rw [hs] at hdrop
    exact .inl ⟨rfl, hdrop.eq_nil⟩
  | cons c s' =>
    have hc := List.head?_dropWhile_not isBlank s
    rw [hs] at hc hdrop
    obtain ⟨t', ht, h'⟩ := Respaced.of_cons (by simpa using hc) hdrop
    exact .inr ⟨c, s', t', rfl, ht, h'⟩

theorem gap?_of_star {rest : List Char} (h : s.dropWhile isBlank = '*' :: rest) :
    gap? s = some (true, (rest.dropWhile (· = '*')).dropWhile isBlank) := by
  unfold gap?
  rw [h]
  cases s <;> rfl

theorem gap?_of_not_star (h : (s.dropWhile isBlank).head? ≠ some '*') :
    gap? s = if s.takeWhile isBlank = [] then none else some (false, s.dropWhile isBlank) := by
  unfold gap?
  split
  · next rest hrest => simp [hrest] at h
  · rfl
  · next c _ _ => cases hc : isBlank c <;> simp [hc]

theorem gap?_respaced (h : Respaced s t) : LeaveRespaced (gap? s) (gap? t) := by
  by_cases hstar : (s.dropWhile isBlank).head? = some '*'
  · obtain ⟨rest, hrest⟩ := List.head?_eq_some_iff.1 hstar
    have hdrop := h.dropWhile_isBlank
    rw [hrest] at hdrop
    obtain ⟨rest', hrest', h'⟩ := Respaced.of_cons (by decide) hdrop
    rw [gap?_of_star hrest, gap?_of_star hrest']
    refine .some (Respaced.dropWhile_isBlank (h'.takeWhile_eq_and_dropWhile ?_).2)
    intro c hc
    rw [decide_eq_false_iff_not]
    rintro rfl
    exact absurd hc (by decide)
  · have hstar' : (t.dropWhile isBlank).head? ≠ some '*' := by
      rcases dropWhile_isBlank_cases h with ⟨-, ht⟩ | ⟨c, s', t', hs, ht, -⟩
      · simp [ht]
      · rw [hs] at hstar
        rw [ht]
        exact hstar
    rw [gap?_of_not_star hstar, gap?_of_not_star hstar']
    simp only [h.takeWhile_isBlank_eq_nil_iff]
    split
    · exact .none
    · exact .some h.dropWhile_isBlank

theorem brackets_blanks_append {blanks : List Char} (hblanks : blanks.all isBlank)
    (text : List Char) :
    brackets true (blanks ++ text) =
      (brackets true text).map fun (taken, rest) => (blanks ++ taken, rest) := by
  induction blanks with
  | nil => simp
  | cons c blanks ih =>
    rw [List.all_cons, Bool.and_eq_true] at hblanks
    have hc : (c != ']') = true := by
      rw [bne_iff_ne]
      rintro rfl
      exact absurd hblanks.1 (by decide)
    simp only [List.cons_append, brackets, if_true, hc, ih hblanks.2, Option.map_map]
    rfl

theorem brackets_of_blank {blanks : List Char} (hne : blanks ≠ []) (hblanks : blanks.all isBlank)
    (text : List Char) : brackets false (blanks ++ text) = some ([], blanks ++ text) := by
  cases blanks with
  | nil => exact absurd rfl hne
  | cons c blanks =>
    rw [List.all_cons, Bool.and_eq_true] at hblanks
    have hc : c ≠ '[' := by
      rintro rfl
      exact absurd hblanks.1 (by decide)
    simp only [List.cons_append, brackets, Bool.false_eq_true, if_false, hc]

theorem brackets_respaced (inside : Bool) (h : Respaced s t) :
    LeaveRespaced (brackets inside s) (brackets inside t) := by
  induction h generalizing inside with
  | nil =>
    cases inside with
    | true => exact .none
    | false => exact .some .nil
  | @ink c s t hc h ih =>
    have hwhole := Respaced.ink hc h
    cases inside with
    | true =>
      simp only [brackets, if_true]
      cases hs : brackets (c != ']') s with
      | none =>
        rw [eq_none_of_rel_none (ih _) hs]
        exact .none
      | some a =>
        obtain ⟨b, ht, hrest⟩ := exists_of_rel_some (ih _) hs
        rw [ht]
        exact .some hrest
    | false =>
      simp only [brackets, Bool.false_eq_true, if_false]
      split
      · cases hs : brackets true s with
        | none =>
          rw [eq_none_of_rel_none (ih _) hs]
          exact .some hwhole
        | some a =>
          obtain ⟨b, ht, hrest⟩ := exists_of_rel_some (ih _) hs
          rw [ht]
          exact .some hrest
      · exact .some hwhole
  | @blanks a b s t ha hb hablank hbblank hfeed hs ht h ih =>
    have hwhole := Respaced.blanks ha hb hablank hbblank hfeed hs ht h
    cases inside with
    | true =>
      rw [brackets_blanks_append hablank, brackets_blanks_append hbblank]
      cases hs : brackets true s with
      | none =>
        rw [eq_none_of_rel_none (ih _) hs]
        exact .none
      | some a =>
        obtain ⟨b, ht, hrest⟩ := exists_of_rel_some (ih _) hs
        rw [ht]
        exact .some hrest
    | false =>
      rw [brackets_of_blank ha hablank, brackets_of_blank hb hbblank]
      exact .some hwhole

theorem endsDeclaration_iff (text : List Char) :
    endsDeclaration text = true ↔
      text.dropWhile isBlank = [';'] ∨ ∃ initializer, text.dropWhile isBlank = '=' :: initializer ∧
        initializer.getLast? = some ';' ∧ '\n' ∉ initializer := by
  unfold endsDeclaration
  split
  · next h => simp [h]
  · next initializer h => simp [h]
  · next hsemicolon hassign =>
    refine iff_of_false Bool.false_ne_true ?_
    rintro (h | ⟨initializer, h, -⟩)
    · exact hsemicolon h
    · exact hassign initializer h

theorem endsDeclaration_imp (h : Respaced s t) (hs : endsDeclaration s = true) :
    endsDeclaration t = true := by
  have hdrop := h.dropWhile_isBlank
  rw [endsDeclaration_iff] at hs ⊢
  rcases hs with hs | ⟨initializer, hs, hlast, hfeed⟩
  · rw [hs] at hdrop
    obtain ⟨t', ht, h'⟩ := Respaced.of_cons (by decide) hdrop
    rw [h'.eq_nil] at ht
    exact .inl ht
  · rw [hs] at hdrop
    obtain ⟨initializer', ht, h'⟩ := Respaced.of_cons (by decide) hdrop
    refine .inr ⟨initializer', ht, (h'.getLast?_eq_some_iff (by decide)).1 hlast, ?_⟩
    rwa [← h'.mem_feed_iff]

theorem endsDeclaration_respaced (h : Respaced s t) : endsDeclaration s = endsDeclaration t := by
  rw [Bool.eq_iff_iff]
  exact ⟨endsDeclaration_imp h, endsDeclaration_imp h.symm⟩

/-! ## Declarations -/

/-- The name of a declaration without the brackets behind it. -/
def identifier (d : Declaration) : List Char :=
  d.name.takeWhile isIdentifierChar

/-- Both texts are no declarations, or they declare one identifier. -/
abbrev Alike : Option Declaration → Option Declaration → Prop :=
  Option.Rel fun d d' => d.identifier = d'.identifier

theorem head?_brackets {text taken rest : List Char}
    (h : brackets false text = some (taken, rest)) {c : Char} (hc : taken.head? = some c) :
    c = '[' := by
  cases text with
  | nil =>
    cases h
    cases hc
  | cons d text =>
    simp only [brackets, Bool.false_eq_true, if_false] at h
    split at h
    · next hd =>
      split at h
      · cases h
        exact (Option.some.inj hc).symm.trans hd
      · cases h
        cases hc
    · cases h
      cases hc

theorem isIdentifierChar_of_isIdentifierStart {c : Char} (h : isIdentifierStart c = true) :
    isIdentifierChar c = true := by
  unfold isIdentifierStart at h
  unfold isIdentifierChar Char.isAlphanum
  rw [Bool.or_eq_true] at h ⊢
  exact h.imp_left fun halpha => by rw [halpha, Bool.true_or]

theorem all_isIdentifierChar {name : List Char} (h : isIdentifier name = true) :
    name.all isIdentifierChar := by
  cases name with
  | nil => cases h
  | cons c cs =>
    rw [isIdentifier, Bool.and_eq_true] at h
    rw [List.all_cons, isIdentifierChar_of_isIdentifierStart h.1, h.2, Bool.and_self]

/-- The identifier of a declaration is what is read as its name. -/
theorem takeWhile_name_append {text name rest text' suffix rest' : List Char}
    (hname : identifier? text = some (name, rest))
    (hsuffix : brackets false text' = some (suffix, rest')) :
    (name ++ suffix).takeWhile isIdentifierChar = name := by
  have hall := all_isIdentifierChar (isIdentifier_of_identifier? hname)
  refine (takeWhile_append_of_stop hall fun c hc => ?_).1
  rw [head?_brackets hsuffix hc]
  rfl

theorem alike_parseType? (h : Respaced s t) (modifiers modifiers' before before' : List Char) :
    Alike (parseType? modifiers before s) (parseType? modifiers' before' t) := by
  unfold parseType?
  refine rel_bind (identifier?_respaced h) fun a b _ _ hab => ?_
  refine rel_bind (gap?_respaced hab.2) fun a b _ _ hab => ?_
  refine rel_bind (identifier?_respaced hab) fun a b hname hname' hab => ?_
  refine rel_bind (brackets_respaced false hab.2) fun c d hsuffix hsuffix' hcd => ?_
  simp only [endsDeclaration_respaced hcd]
  split
  · refine .some ?_
    rw [identifier, identifier, takeWhile_name_append hname hsuffix,
      takeWhile_name_append hname' hsuffix', hab.1]
  · exact .none

theorem parseSizes?_of_word {text taken rest : List Char}
    (h : word? sizeWords text = some (taken, rest)) (modifiers before : List Char) :
    parseSizes? modifiers before text =
      (parseSizes? modifiers (before ++ taken) rest).or (parseType? modifiers before text) := by
  rw [parseSizes?]
  split
  · next taken' rest' h' =>
    rw [h] at h'
    cases h'
    rfl
  · next h' =>
    rw [h] at h'
    cases h'

theorem parseSizes?_of_none {text : List Char} (h : word? sizeWords text = none)
    (modifiers before : List Char) :
    parseSizes? modifiers before text = parseType? modifiers before text := by
  rw [parseSizes?]
  split
  · next h' =>
    rw [h] at h'
    cases h'
  · rfl

theorem parseModifiers?_of_word {text taken rest : List Char}
    (h : word? modifierWords text = some (taken, rest)) (before : List Char) :
    parseModifiers? before text =
      (parseModifiers? (before ++ taken) rest).or (parseSizes? before [] text) := by
  rw [parseModifiers?]
  split
  · next taken' rest' h' =>
    rw [h] at h'
    cases h'
    rfl
  · next h' =>
    rw [h] at h'
    cases h'

theorem parseModifiers?_of_none {text : List Char} (h : word? modifierWords text = none)
    (before : List Char) : parseModifiers? before text = parseSizes? before [] text := by
  rw [parseModifiers?]
  split
  · next h' =>
    rw [h] at h'
    cases h'
  · rfl

theorem alike_parseSizes? (h : Respaced s t) (modifiers modifiers' before before' : List Char) :
    Alike (parseSizes? modifiers before s) (parseSizes? modifiers' before' t) := by
  fun_induction parseSizes? modifiers before s generalizing t before' with
  | case1 before s taken rest hs ih =>
    obtain ⟨b, ht, hrest⟩ := exists_of_rel_some (word?_respaced sizeWords h) hs
    rw [parseSizes?_of_word ht]
    exact rel_or (ih hrest (before' ++ b.1)) (alike_parseType? h ..)
  | case2 before s hs =>
    rw [parseSizes?_of_none (eq_none_of_rel_none (word?_respaced sizeWords h) hs)]
    exact alike_parseType? h ..

/-- Whether a text is a declaration, and of which identifier, is read off its ink and off where
blanks stand. -/
theorem alike_parseModifiers? (h : Respaced s t) (before before' : List Char) :
    Alike (parseModifiers? before s) (parseModifiers? before' t) := by
  fun_induction parseModifiers? before s generalizing t before' with
  | case1 before s taken rest hs ih =>
    obtain ⟨b, ht, hrest⟩ := exists_of_rel_some (word?_respaced modifierWords h) hs
    rw [parseModifiers?_of_word ht]
    exact rel_or (ih hrest (before' ++ b.1)) (alike_parseSizes? h ..)
  | case2 before s hs =>
    rw [parseModifiers?_of_none (eq_none_of_rel_none (word?_respaced modifierWords h) hs)]
    exact alike_parseSizes? h ..

/-- A declaration begins with a word. -/
theorem parse?_eq_none_of_head? {line : Line}
    (h : ∀ c, (trim line).head? = some c → isIdentifierStart c = false) : parse? line = none := by
  have hword : identifier? (trim line) = none := by
    cases hline : trim line with
    | nil => rfl
    | cons c rest => simp [identifier?, h c (by rw [hline]; rfl)]
  have hnone : ∀ words, word? words (trim line) = none := by
    intro words
    simp [word?, hword]
  rw [parse?, parseModifiers?_of_none (hnone _), parseSizes?_of_none (hnone _), parseType?, hword]
  rfl

theorem alike_parse?_normalize (level : Nat) (line : Line) :
    Alike (parse? line) (parse? (normalize level line)) :=
  alike_parseModifiers? (respaced_trim_normalize level line) [] []

/-- Normalizing a line makes it no declaration if it was none, and leaves one as it is. -/
theorem isSome_parse?_normalize (level : Nat) (line : Line) :
    (parse? (normalize level line)).isSome = (parse? line).isSome :=
  (isSome_eq_of_rel (alike_parse?_normalize level line)).symm

end Stencil.Source.Declaration
