import Stencil.Proofs.Source.Declaration

/-!
# Declarators

What follows the type in a declaration is a *declarator*: stars or blanks, a name with brackets
perhaps, an initializer perhaps, and a semicolon at the end (`Declarator`). The readers of a
declaration take exactly the parts of a declarator, so that a word of the type with anything behind
it makes a declaration if and only if a declarator stands behind it (`isSome_parseType?_iff`).
-/

namespace Stencil.Source.Declaration

open Text

/-- Brackets behind a name, each up to the first closing bracket. -/
inductive Brackets : List Char → Prop
  | nil : Brackets []
  | cons {inside rest : List Char} (hinside : ']' ∉ inside) (h : Brackets rest) :
    Brackets ('[' :: (inside ++ ']' :: rest))

/-- A semicolon, with an initializer of one line before it perhaps. -/
inductive Ending : List Char → Prop
  | semicolon : Ending [';']
  | initializer {value : List Char} (hvalue : '\n' ∉ value) : Ending ('=' :: (value ++ [';']))

/-- A name, its brackets and the end of its declaration. -/
inductive Named : List Char → Prop
  | intro {name suffix blanks ending : List Char} (hname : isIdentifier name = true)
      (hsuffix : Brackets suffix) (hblanks : blanks.all isBlank) (hending : Ending ending) :
    Named (name ++ (suffix ++ (blanks ++ ending)))

/-- What may follow the type of a declaration. -/
inductive Declarator : List Char → Prop
  | value {blanks named : List Char} (hne : blanks ≠ []) (hblanks : blanks.all isBlank)
      (hnamed : Named named) : Declarator (blanks ++ named)
  | pointer {blanks stars blanks' named : List Char} (hblanks : blanks.all isBlank)
      (hne : stars ≠ []) (hstars : ∀ c ∈ stars, c = '*') (hblanks' : blanks'.all isBlank)
      (hnamed : Named named) : Declarator (blanks ++ (stars ++ (blanks' ++ named)))

/-! ## Brackets -/

theorem exists_of_brackets {inside : Bool} {text taken rest : List Char}
    (h : brackets inside text = some (taken, rest)) :
    text = taken ++ rest ∧
      if inside then ∃ front back, taken = front ++ ']' :: back ∧ ']' ∉ front ∧ Brackets back
      else Brackets taken := by
  induction text generalizing inside taken with
  | nil =>
    cases inside with
    | true => cases h
    | false =>
      cases h
      exact ⟨rfl, .nil⟩
  | cons c text ih =>
    cases inside with
    | true =>
      simp only [brackets, if_true] at h
      obtain ⟨⟨taken', rest'⟩, hrest, heq⟩ := Option.map_eq_some_iff.1 h
      cases heq
      obtain ⟨rfl, htaken⟩ := ih hrest
      refine ⟨rfl, ?_⟩
      by_cases hc : c = ']'
      · subst hc
        exact ⟨[], taken', rfl, by simp, htaken⟩
      · simp only [bne_iff_ne, ne_eq, hc, not_false_eq_true, if_true] at htaken
        obtain ⟨front, back, rfl, hfront, hback⟩ := htaken
        exact ⟨c :: front, back, rfl, by simp [Ne.symm hc, hfront], hback⟩
    | false =>
      simp only [brackets, Bool.false_eq_true, if_false] at h
      split at h
      · next hc =>
        subst hc
        split at h
        · next taken' rest' hrest =>
          cases h
          obtain ⟨rfl, front, back, rfl, hfront, hback⟩ := ih hrest
          exact ⟨rfl, .cons hfront hback⟩
        · cases h
          exact ⟨rfl, .nil⟩
      · cases h
        exact ⟨rfl, .nil⟩

theorem brackets_append {suffix rest : List Char} (h : Brackets suffix)
    (hstop : rest.head? ≠ some '[') : brackets false (suffix ++ rest) = some (suffix, rest) := by
  induction h with
  | nil =>
    cases rest with
    | nil => rfl
    | cons c rest =>
      have hc : c ≠ '[' := fun hc => hstop (congrArg some hc)
      simp [brackets, hc]
  | @cons inside back hinside _ ih =>
    have htrue : brackets true (inside ++ (']' :: (back ++ rest))) =
        some (inside ++ ']' :: back, rest) := by
      clear hstop
      induction inside with
      | nil =>
        have hclosed : (']' != ']') = false := rfl
        simp only [List.nil_append, brackets, if_true, hclosed, ih, Option.map_some]
      | cons c inside ih' =>
        rw [List.mem_cons, not_or] at hinside
        have hc : (c != ']') = true := by simp [Ne.symm hinside.1]
        simp only [List.cons_append, brackets, if_true, hc, ih' hinside.2, Option.map_some]
    rw [List.cons_append, List.append_assoc, List.cons_append, brackets, if_neg Bool.false_ne_true,
      if_pos rfl, htrue]

/-! ## The end of a declaration -/

theorem endsDeclaration_iff_ending {text : List Char} :
    endsDeclaration text = true ↔
      ∃ blanks ending, text = blanks ++ ending ∧ blanks.all isBlank ∧ Ending ending := by
  rw [endsDeclaration_iff]
  have htake : (text.takeWhile isBlank).all isBlank := by
    rw [List.all_eq_true]
    exact fun c hc => List.mem_takeWhile_imp hc
  have hsplit : text = text.takeWhile isBlank ++ text.dropWhile isBlank :=
    List.takeWhile_append_dropWhile.symm
  constructor
  · rintro (hdrop | ⟨initializer, hdrop, hlast, hfeed⟩)
    · rw [hdrop] at hsplit
      exact ⟨_, _, hsplit, htake, .semicolon⟩
    · obtain ⟨value, rfl⟩ := List.getLast?_eq_some_iff.1 hlast
      rw [hdrop] at hsplit
      exact ⟨_, _, hsplit, htake, .initializer fun hmem => hfeed (List.mem_append_left _ hmem)⟩
  · rintro ⟨blanks, ending, rfl, hblanks, hending⟩
    cases hending with
    | semicolon =>
      exact .inl (dropWhile_blanks_append hblanks (startsWithInk_cons (by decide) _))
    | @initializer value hvalue =>
      refine .inr ⟨value ++ [';'], ?_, by simp, by simp [hvalue]⟩
      exact dropWhile_blanks_append hblanks (startsWithInk_cons (by decide) _)

/-- Neither a name nor brackets go on at the end of a declaration. -/
theorem head?_ending {blanks ending : List Char} (hblanks : blanks.all isBlank)
    (hending : Ending ending) {c : Char} (hc : (blanks ++ ending).head? = some c) :
    isIdentifierChar c = false ∧ c ≠ '[' := by
  cases blanks with
  | nil =>
    cases hending with
    | semicolon =>
      cases hc
      decide
    | initializer _ =>
      cases hc
      decide
  | cons b blanks =>
    cases hc
    rw [List.all_cons, Bool.and_eq_true] at hblanks
    refine ⟨isIdentifierChar_of_isBlank hblanks.1, ?_⟩
    rintro rfl
    exact absurd hblanks.1 (by decide)

/-! ## Names -/

/-- A name with its brackets, and whether the declaration ends behind it. -/
theorem named_iff {text : List Char} :
    Named text ↔ ∃ name rest suffix rest', identifier? text = some (name, rest) ∧
      brackets false rest = some (suffix, rest') ∧ endsDeclaration rest' = true := by
  constructor
  · rintro ⟨hname, hsuffix, hblanks, hending⟩
    rename_i name suffix blanks ending
    refine ⟨name, _, suffix, _, identifier?_append hname fun c hc => ?_,
      brackets_append hsuffix fun hc => ?_,
      endsDeclaration_iff_ending.2 ⟨blanks, ending, rfl, hblanks, hending⟩⟩
    · cases hsuffix with
      | nil => exact (head?_ending hblanks hending hc).1
      | cons _ _ =>
        cases hc
        decide
    · exact (head?_ending hblanks hending hc).2 rfl
  · rintro ⟨name, rest, suffix, rest', hname, hsuffix, hends⟩
    obtain ⟨blanks, ending, rfl, hblanks, hending⟩ := endsDeclaration_iff_ending.1 hends
    obtain ⟨rfl, hbrackets⟩ := exists_of_brackets hsuffix
    rw [← append_of_identifier? hname]
    exact .intro (isIdentifier_of_identifier? hname) hbrackets hblanks hending

/-- A name begins with neither a blank nor a star. -/
theorem Named.head? {named : List Char} (h : Named named) {c : Char} (hc : named.head? = some c) :
    isBlank c = false ∧ c ≠ '*' := by
  obtain ⟨name, rest, _, _, hname, -, -⟩ := named_iff.1 h
  have hstart : isIdentifierStart c = true := by
    cases named with
    | nil => cases hc
    | cons d named =>
      cases hc
      cases hd : isIdentifierStart c with
      | true => rfl
      | false => simp [identifier?, hd] at hname
  constructor
  · by_contra hblank
    rw [Bool.not_eq_false] at hblank
    rw [isIdentifierStart_of_isBlank hblank] at hstart
    cases hstart
  · rintro rfl
    exact absurd hstart (by decide)

/-! ## Declarators -/

theorem Named.startsWithInk {named : List Char} (h : Named named) : StartsWithInk named :=
  fun _ hc => (h.head? hc).1

theorem gap?_blanks_append {blanks named : List Char} (hne : blanks ≠ [])
    (hblanks : blanks.all isBlank) (hnamed : Named named) :
    gap? (blanks ++ named) = some (false, named) := by
  have hdrop := dropWhile_blanks_append hblanks hnamed.startsWithInk
  have hstar : ((blanks ++ named).dropWhile isBlank).head? ≠ some '*' := by
    rw [hdrop]
    exact fun hc => (hnamed.head? hc).2 rfl
  rw [gap?_of_not_star hstar, hdrop, if_neg]
  cases blanks with
  | nil => exact absurd rfl hne
  | cons b blanks =>
    rw [List.all_cons, Bool.and_eq_true] at hblanks
    simp [hblanks.1]

theorem gap?_stars_append {blanks stars blanks' named : List Char} (hblanks : blanks.all isBlank)
    (hstars : ∀ c ∈ stars, c = '*') (hblanks' : blanks'.all isBlank) (hnamed : Named named) :
    gap? (blanks ++ '*' :: (stars ++ (blanks' ++ named))) = some (true, named) := by
  have hdrop := dropWhile_blanks_append hblanks
    (startsWithInk_cons (c := '*') (by decide) (stars ++ (blanks' ++ named)))
  have hall : stars.all (· = '*') := by simpa using hstars
  have hstop : ∀ c, (blanks' ++ named).head? = some c → decide (c = '*') = false := by
    intro c hc
    rw [decide_eq_false_iff_not]
    cases blanks' with
    | nil => exact (hnamed.head? hc).2
    | cons b blanks' =>
      cases hc
      rintro rfl
      exact absurd (List.all_eq_true.1 hblanks' _ List.mem_cons_self) (by decide)
  rw [gap?_of_star hdrop, (takeWhile_append_of_stop hall hstop).2,
    dropWhile_blanks_append hblanks' hnamed.startsWithInk]

theorem declarator_of_gap? {text rest : List Char} {star : Bool}
    (h : gap? text = some (star, rest)) (hnamed : Named rest) : Declarator text := by
  have htake : ∀ (p : Char → Bool) (text : List Char), ∀ c ∈ text.takeWhile p, p c = true :=
    fun p text c hc => List.mem_takeWhile_imp hc
  have hsplit : ∀ (p : Char → Bool) (text : List Char),
      text = text.takeWhile p ++ text.dropWhile p :=
    fun p text => List.takeWhile_append_dropWhile.symm
  by_cases hstar : (text.dropWhile isBlank).head? = some '*'
  · obtain ⟨stars, hstars⟩ := List.head?_eq_some_iff.1 hstar
    rw [gap?_of_star hstars] at h
    cases h
    rw [hsplit isBlank text, hstars, hsplit (· = '*') stars,
      hsplit isBlank (stars.dropWhile (· = '*')), ← List.cons_append]
    refine .pointer (List.all_eq_true.2 (htake _ _)) (List.cons_ne_nil _ _) ?_
      (List.all_eq_true.2 (htake _ _)) hnamed
    rw [List.forall_mem_cons]
    exact ⟨rfl, fun c hc => by simpa using htake _ _ c hc⟩
  · rw [gap?_of_not_star hstar] at h
    split at h
    · cases h
    · next hne =>
      cases h
      rw [hsplit isBlank text]
      exact .value hne (List.all_eq_true.2 (htake _ _)) hnamed

theorem declarator_iff {text : List Char} :
    Declarator text ↔ ∃ star rest, gap? text = some (star, rest) ∧ Named rest := by
  constructor
  · intro h
    cases h with
    | value hne hblanks hnamed => exact ⟨false, _, gap?_blanks_append hne hblanks hnamed, hnamed⟩
    | @pointer blanks stars blanks' named hblanks hne hstars hblanks' hnamed =>
      cases stars with
      | nil => exact absurd rfl hne
      | cons d stars =>
        rw [List.forall_mem_cons] at hstars
        obtain ⟨rfl, hstars⟩ := hstars
        exact ⟨true, named, gap?_stars_append hblanks hstars hblanks' hnamed, hnamed⟩
  · rintro ⟨star, rest, hgap, hnamed⟩
    exact declarator_of_gap? hgap hnamed

/-- A word makes a declaration with what follows it if this is a declarator. -/
theorem isSome_parseType?_iff {word rest : List Char} (hword : isIdentifier word = true)
    (hstop : ∀ c, rest.head? = some c → isIdentifierChar c = false)
    (modifiers before : List Char) :
    (parseType? modifiers before (word ++ rest)).isSome = true ↔ Declarator rest := by
  rw [declarator_iff, parseType?, identifier?_append hword hstop]
  simp only [named_iff, Option.bind_eq_bind, Option.bind_some]
  constructor
  · intro hsome
    cases hgap : gap? rest with
    | none => simp [hgap] at hsome
    | some gap =>
      obtain ⟨star, text⟩ := gap
      cases hname : identifier? text with
      | none => simp [hgap, hname] at hsome
      | some named =>
        obtain ⟨name, text'⟩ := named
        cases hsuffix : brackets false text' with
        | none => simp [hgap, hname, hsuffix] at hsome
        | some bracketed =>
          obtain ⟨suffix, text''⟩ := bracketed
          cases hends : endsDeclaration text'' with
          | false => simp [hgap, hname, hsuffix, hends] at hsome
          | true => exact ⟨star, text, rfl, name, text', suffix, text'', hname, hsuffix, hends⟩
  · rintro ⟨star, text, hgap, name, text', suffix, text'', hname, hsuffix, hends⟩
    simp [hgap, hname, hsuffix, hends]

end Stencil.Source.Declaration
