import Stencil.Proofs.Source.Declaration
import Stencil.Proofs.Source.Normalization

/-!
# Declarations before and after alignment

Aligning a line puts other blanks before its first `=`. A declaration has its first `=` outside of
its name unless it stands in the brackets of the name, and what is before it ends in the ink that it
ended in, so the readers of declarations do the same before and after: they take the same parts, or
they come to the `=` where none is expected and fail. So a line without such brackets is the same
declaration when it is aligned (`parse?_alignLine`).
-/

namespace Stencil.Source

open Text

/-- The second text is the first with other blanks before its first `=`, and at least one there. -/
inductive Padded : List Char → List Char → Prop
  | sign {blanks spaces : List Char} (value : List Char) (hblanks : blanks.all isBlank)
      (hne : spaces ≠ []) (hspaces : spaces.all isBlank) :
      Padded (blanks ++ '=' :: value) (spaces ++ '=' :: value)
  | cons {c : Char} {s t : List Char} (hc : c ≠ '=') (h : Padded s t) : Padded (c :: s) (c :: t)

namespace Padded

variable {s t : List Char}

theorem append {front : List Char} (hfront : '=' ∉ front) (h : Padded s t) :
    Padded (front ++ s) (front ++ t) := by
  induction front with
  | nil => exact h
  | cons c front ih =>
    rw [List.mem_cons, not_or] at hfront
    exact .cons (Ne.symm hfront.1) (ih hfront.2)

theorem ne_nil (h : Padded s t) : s ≠ [] ∧ t ≠ [] := by
  cases h <;> simp

/-- Blanks at the start of both texts are the same, or they end at the first `=` of both. -/
theorem dropWhile_isBlank (h : Padded s t) :
    (∃ value, s.dropWhile isBlank = '=' :: value ∧ t.dropWhile isBlank = '=' :: value) ∨
      ∃ c s' t', c ≠ '=' ∧ s.dropWhile isBlank = c :: s' ∧ t.dropWhile isBlank = c :: t' ∧
        s.takeWhile isBlank = t.takeWhile isBlank ∧ Padded s' t' := by
  induction h with
  | @sign blanks spaces value hblanks hne hspaces =>
    have hstart : StartsWithInk ('=' :: value) := startsWithInk_cons (by decide) value
    exact .inl ⟨value, dropWhile_blanks_append hblanks hstart,
      dropWhile_blanks_append hspaces hstart⟩
  | @cons c s t hc h ih =>
    cases hblank : isBlank c with
    | true =>
      rw [List.dropWhile_cons_of_pos hblank, List.dropWhile_cons_of_pos hblank,
        List.takeWhile_cons_of_pos hblank, List.takeWhile_cons_of_pos hblank]
      rcases ih with hsign | ⟨d, s', t', hd, hs, ht, htake, h'⟩
      · exact .inl hsign
      · exact .inr ⟨d, s', t', hd, hs, ht, by rw [htake], h'⟩
    | false =>
      rw [List.dropWhile_cons_of_neg (by simp [hblank]),
        List.dropWhile_cons_of_neg (by simp [hblank]),
        List.takeWhile_cons_of_neg (by simp [hblank]),
        List.takeWhile_cons_of_neg (by simp [hblank])]
      exact .inr ⟨c, s, t, hc, rfl, rfl, rfl, h⟩

section charClass

variable {p : Char → Bool} (hp : ∀ c, isBlank c = true → p c = false) (hsign : p '=' = false)

include hp hsign in
/-- The longest start of characters of a class without blanks and without `=`, and what follows
it. -/
theorem takeWhile_eq_and_dropWhile (h : Padded s t) :
    s.takeWhile p = t.takeWhile p ∧ Padded (s.dropWhile p) (t.dropWhile p) := by
  have hstop : ∀ (blanks value : List Char), blanks.all isBlank →
      (blanks ++ '=' :: value).takeWhile p = [] ∧
        (blanks ++ '=' :: value).dropWhile p = blanks ++ '=' :: value := by
    intro blanks value hblanks
    cases blanks with
    | nil => simp [hsign]
    | cons b blanks =>
      rw [List.all_cons, Bool.and_eq_true] at hblanks
      simp [hp b hblanks.1]
  induction h with
  | sign value hblanks hne hspaces =>
    rw [(hstop _ value hblanks).1, (hstop _ value hspaces).1, (hstop _ value hblanks).2,
      (hstop _ value hspaces).2]
    exact ⟨rfl, .sign value hblanks hne hspaces⟩
  | @cons c s t hc h ih =>
    cases hpc : p c with
    | true =>
      rw [List.takeWhile_cons_of_pos hpc, List.takeWhile_cons_of_pos hpc,
        List.dropWhile_cons_of_pos hpc, List.dropWhile_cons_of_pos hpc, ih.1]
      exact ⟨rfl, ih.2⟩
    | false =>
      rw [List.takeWhile_cons_of_neg (by simp [hpc]), List.takeWhile_cons_of_neg (by simp [hpc]),
        List.dropWhile_cons_of_neg (by simp [hpc]), List.dropWhile_cons_of_neg (by simp [hpc])]
      exact ⟨rfl, .cons hc h⟩

end charClass

end Padded

namespace Declaration

variable {s t : List Char}

/-! ## Parts of a declaration -/

/-- A reader fails or leaves a text that begins with `=`, where no declaration goes on. -/
def Stops {α : Type} (read : Option (α × List Char)) : Prop :=
  ∀ parts, read = some parts → parts.2.head? = some '='

/-- Both readers take the same, and leave texts of which the second is the first padded. -/
def TakeSame {α : Type} (read read' : Option (α × List Char)) : Prop :=
  ∃ taken rest rest', read = some (taken, rest) ∧ read' = some (taken, rest') ∧ Padded rest rest'

theorem stops_none {α : Type} : Stops (none : Option (α × List Char)) := by
  intro parts hparts
  cases hparts

/-- What is read where no declaration goes on makes none. -/
theorem Stops.bind_eq_none {α : Type} {read : Option (α × List Char)} (h : Stops read)
    {next : α × List Char → Option Declaration}
    (hnext : ∀ taken value, next (taken, '=' :: value) = none) : read.bind next = none := by
  cases read with
  | none => rfl
  | some parts =>
    obtain ⟨taken, rest⟩ := parts
    obtain ⟨value, rfl⟩ := List.head?_eq_some_iff.1 (h _ rfl)
    exact hnext taken value

theorem stops_sign {α : Type} (taken : α) (value : List Char) :
    Stops (some (taken, '=' :: value)) := by
  intro parts hparts
  cases hparts
  rfl

theorem identifier?_of_blanks {blanks : List Char} (hblanks : blanks.all isBlank)
    (value : List Char) : identifier? (blanks ++ '=' :: value) = none := by
  cases blanks with
  | nil => rfl
  | cons b blanks =>
    rw [List.all_cons, Bool.and_eq_true] at hblanks
    rw [List.cons_append, identifier?, isIdentifierStart_of_isBlank hblanks.1]
    rfl

theorem identifier?_padded (h : Padded s t) :
    identifier? s = none ∧ identifier? t = none ∨ TakeSame (identifier? s) (identifier? t) := by
  cases h with
  | sign value hblanks _ hspaces =>
    exact .inl ⟨identifier?_of_blanks hblanks value, identifier?_of_blanks hspaces value⟩
  | @cons c s t hc h =>
    obtain ⟨htake, hdrop⟩ := h.takeWhile_eq_and_dropWhile
      (fun _ hblank => isIdentifierChar_of_isBlank hblank) (by decide)
    cases hstart : isIdentifierStart c with
    | true =>
      simp only [identifier?, hstart, if_true, htake]
      exact .inr ⟨_, _, _, rfl, rfl, hdrop⟩
    | false => simp [identifier?, hstart]

theorem word?_padded (words : List (List Char)) (h : Padded s t) :
    Stops (word? words s) ∧ Stops (word? words t) ∨
      TakeSame (word? words s) (word? words t) := by
  unfold word?
  rcases identifier?_padded h with ⟨hs, ht⟩ | ⟨word, rest, rest', hs, ht, hrest⟩
  · rw [hs, ht]
    exact .inl ⟨stops_none, stops_none⟩
  · simp only [hs, ht, Option.bind_eq_bind, Option.bind_some]
    rcases hrest.dropWhile_isBlank with
      ⟨value, hs', ht'⟩ | ⟨c, s', t', hc, hs', ht', htake, hrest'⟩
    · left
      rw [hs', ht']
      constructor
      · split
        · exact stops_sign _ value
        · exact stops_none
      · split
        · exact stops_sign _ value
        · exact stops_none
    · rw [hs', ht', htake]
      split
      · exact .inr ⟨_, _, _, rfl, rfl, .cons hc hrest'⟩
      · exact .inl ⟨stops_none, stops_none⟩

theorem gap?_padded (h : Padded s t) :
    Stops (gap? s) ∧ Stops (gap? t) ∨ TakeSame (gap? s) (gap? t) := by
  rcases h.dropWhile_isBlank with ⟨value, hs, ht⟩ | ⟨c, s', t', hc, hs, ht, htake, h'⟩
  · left
    rw [gap?_of_not_star (by simp [hs]), gap?_of_not_star (by simp [ht]), hs, ht]
    constructor
    · split
      · exact stops_none
      · exact stops_sign _ value
    · split
      · exact stops_none
      · exact stops_sign _ value
  · by_cases hstar : c = '*'
    · subst hstar
      rw [gap?_of_star hs, gap?_of_star ht]
      have hstars : Padded (s'.dropWhile (· = '*')) (t'.dropWhile (· = '*')) := by
        refine (h'.takeWhile_eq_and_dropWhile ?_ (by decide)).2
        intro d hd
        rw [decide_eq_false_iff_not]
        rintro rfl
        exact absurd hd (by decide)
      rcases hstars.dropWhile_isBlank with
        ⟨value, hs', ht'⟩ | ⟨d, s'', t'', hd, hs', ht', -, h''⟩
      · rw [hs', ht']
        exact .inl ⟨stops_sign _ value, stops_sign _ value⟩
      · rw [hs', ht']
        exact .inr ⟨_, _, _, rfl, rfl, .cons hd h''⟩
    · rw [gap?_of_not_star (by simp [hs, hstar]), gap?_of_not_star (by simp [ht, hstar]), hs, ht,
        htake]
      split
      · exact .inl ⟨stops_none, stops_none⟩
      · exact .inr ⟨_, _, _, rfl, rfl, .cons hc h'⟩

theorem brackets_of_sign {blanks : List Char} (hblanks : blanks.all isBlank) (value : List Char) :
    brackets false (blanks ++ '=' :: value) = some ([], blanks ++ '=' :: value) := by
  cases blanks with
  | nil => rfl
  | cons b blanks => exact brackets_of_blank (List.cons_ne_nil b blanks) hblanks _

/-- Brackets without `=` are taken alike, and after brackets with one the texts are equal. -/
theorem brackets_padded (inside : Bool) (h : Padded s t) :
    Option.Rel (fun a b => a.1 = b.1 ∧ Padded a.2 b.2 ∨ '=' ∈ a.1 ∧ a.2 = b.2)
      (brackets inside s) (brackets inside t) := by
  induction h generalizing inside with
  | sign value hblanks hne hspaces =>
    cases inside with
    | true =>
      have hsign : brackets true ('=' :: value) =
          (brackets true value).map fun parts => ('=' :: parts.1, parts.2) := rfl
      rw [brackets_blanks_append hblanks, brackets_blanks_append hspaces, hsign]
      cases brackets true value with
      | none => exact .none
      | some parts => exact .some (Or.inr ⟨by simp, rfl⟩)
    | false =>
      rw [brackets_of_sign hblanks, brackets_of_sign hspaces]
      exact .some (.inl ⟨rfl, .sign value hblanks hne hspaces⟩)
  | @cons c s t hc h ih =>
    cases inside with
    | true =>
      simp only [brackets, if_true]
      cases hs : brackets (c != ']') s with
      | none =>
        rw [eq_none_of_rel_none (ih _) hs]
        exact .none
      | some a =>
        obtain ⟨b, ht, hrest⟩ := exists_of_rel_some (ih _) hs
        rw [ht]
        refine .some ?_
        rcases hrest with ⟨htaken, hrest⟩ | ⟨hsign, hrest⟩
        · exact .inl ⟨congrArg (c :: ·) htaken, hrest⟩
        · exact .inr ⟨List.mem_cons_of_mem _ hsign, hrest⟩
    | false =>
      simp only [brackets, Bool.false_eq_true, if_false]
      split
      · cases hs : brackets true s with
        | none =>
          rw [eq_none_of_rel_none (ih _) hs]
          exact .some (.inl ⟨rfl, .cons hc h⟩)
        | some a =>
          obtain ⟨b, ht, hrest⟩ := exists_of_rel_some (ih _) hs
          rw [ht]
          refine .some ?_
          rcases hrest with ⟨htaken, hrest⟩ | ⟨hsign, hrest⟩
          · exact .inl ⟨congrArg (c :: ·) htaken, hrest⟩
          · exact .inr ⟨List.mem_cons_of_mem _ hsign, hrest⟩
      · exact .some (.inl ⟨rfl, .cons hc h⟩)

theorem endsDeclaration_of_ne {c : Char} {text rest : List Char} (hc : c ≠ '=')
    (htext : text.dropWhile isBlank = c :: rest) (hrest : rest ≠ []) :
    endsDeclaration text = false := by
  rw [← Bool.not_eq_true, endsDeclaration_iff, htext]
  rintro (h | ⟨value, h, -⟩)
  · cases h
    exact hrest rfl
  · cases h
    exact hc rfl

theorem endsDeclaration_padded (h : Padded s t) : endsDeclaration s = endsDeclaration t := by
  rcases h.dropWhile_isBlank with ⟨value, hs, ht⟩ | ⟨c, s', t', hc, hs, ht, -, h'⟩
  · rw [endsDeclaration, hs, endsDeclaration, ht]
  · rw [endsDeclaration_of_ne hc hs h'.ne_nil.1, endsDeclaration_of_ne hc ht h'.ne_nil.2]

/-! ## Declarations -/

/-- The declarations that two texts are, if any, are of one identifier, and the same unless the name
of the first one holds an `=`. -/
abbrev SameDeclaration : Option Declaration → Option Declaration → Prop :=
  Option.Rel fun d d' => d.identifier = d'.identifier ∧ ('=' ∉ d.name → d' = d)

theorem parseType?_of_sign (modifiers before value : List Char) :
    parseType? modifiers before ('=' :: value) = none := rfl

theorem sameDeclaration_parseType? (h : Padded s t) (modifiers before : List Char) :
    SameDeclaration (parseType? modifiers before s) (parseType? modifiers before t) := by
  unfold parseType?
  rcases identifier?_padded h with ⟨hs, ht⟩ | ⟨word, rest, rest', hs, ht, hrest⟩
  · rw [hs, ht]
    exact .none
  simp only [hs, ht, Option.bind_eq_bind, Option.bind_some]
  rcases gap?_padded hrest with ⟨hstop, hstop'⟩ | ⟨star, rest, rest', hs, ht, hrest⟩
  · rw [hstop.bind_eq_none fun _ _ => rfl, hstop'.bind_eq_none fun _ _ => rfl]
    exact .none
  simp only [hs, ht, Option.bind_some]
  rcases identifier?_padded hrest with ⟨hs, ht⟩ | ⟨name, rest, rest', hname, hname', hrest⟩
  · rw [hs, ht]
    exact .none
  simp only [hname, hname', Option.bind_some]
  refine rel_bind (brackets_padded false hrest) fun a b hsuffix hsuffix' hparts => ?_
  have hidentifier : (name ++ a.1).takeWhile isIdentifierChar =
      (name ++ b.1).takeWhile isIdentifierChar := by
    rw [takeWhile_name_append hname hsuffix, takeWhile_name_append hname' hsuffix']
  rcases hparts with ⟨htaken, hend⟩ | ⟨hsign, hend⟩
  · simp only [htaken, endsDeclaration_padded hend]
    split
    · exact .some ⟨rfl, fun _ => rfl⟩
    · exact .none
  · simp only [hend]
    split
    · exact .some ⟨hidentifier, fun hnot => absurd (List.mem_append_right name hsign) hnot⟩
    · exact .none

theorem parseSizes?_of_sign (modifiers before value : List Char) :
    parseSizes? modifiers before ('=' :: value) = none := by
  rw [parseSizes?_of_none rfl, parseType?_of_sign]

theorem parseModifiers?_of_sign (before value : List Char) :
    parseModifiers? before ('=' :: value) = none := by
  rw [parseModifiers?_of_none rfl, parseSizes?_of_sign]

/-- A word with nothing but `=` behind it is no part of the type. -/
theorem parseSizes?_of_stops {text : List Char} (h : Stops (word? sizeWords text))
    (modifiers before : List Char) :
    parseSizes? modifiers before text = parseType? modifiers before text := by
  cases hword : word? sizeWords text with
  | none => exact parseSizes?_of_none hword modifiers before
  | some parts =>
    obtain ⟨taken, rest⟩ := parts
    obtain ⟨value, rfl⟩ := List.head?_eq_some_iff.1 (h _ hword)
    rw [parseSizes?_of_word hword, parseSizes?_of_sign, Option.none_or]

theorem parseModifiers?_of_stops {text : List Char} (h : Stops (word? modifierWords text))
    (before : List Char) : parseModifiers? before text = parseSizes? before [] text := by
  cases hword : word? modifierWords text with
  | none => exact parseModifiers?_of_none hword before
  | some parts =>
    obtain ⟨taken, rest⟩ := parts
    obtain ⟨value, rfl⟩ := List.head?_eq_some_iff.1 (h _ hword)
    rw [parseModifiers?_of_word hword, parseModifiers?_of_sign, Option.none_or]

theorem sameDeclaration_parseSizes? (h : Padded s t) (modifiers before : List Char) :
    SameDeclaration (parseSizes? modifiers before s) (parseSizes? modifiers before t) := by
  fun_induction parseSizes? modifiers before s generalizing t with
  | case1 before s taken rest hs ih =>
    rcases word?_padded sizeWords h with ⟨hstop, hstop'⟩ | ⟨taken, rest, rest', hs', ht, hrest⟩
    · rw [← parseSizes?_of_word hs, parseSizes?_of_stops hstop, parseSizes?_of_stops hstop']
      exact sameDeclaration_parseType? h modifiers before
    · rw [hs] at hs'
      cases hs'
      rw [parseSizes?_of_word ht]
      exact rel_or (ih hrest) (sameDeclaration_parseType? h modifiers before)
  | case2 before s hs =>
    rcases word?_padded sizeWords h with ⟨-, hstop⟩ | ⟨_, _, _, hs', -, -⟩
    · rw [parseSizes?_of_stops hstop]
      exact sameDeclaration_parseType? h modifiers before
    · rw [hs] at hs'
      cases hs'

theorem sameDeclaration_parseModifiers? (h : Padded s t) (before : List Char) :
    SameDeclaration (parseModifiers? before s) (parseModifiers? before t) := by
  fun_induction parseModifiers? before s generalizing t with
  | case1 before s taken rest hs ih =>
    rcases word?_padded modifierWords h with
      ⟨hstop, hstop'⟩ | ⟨taken, rest, rest', hs', ht, hrest⟩
    · rw [← parseModifiers?_of_word hs, parseModifiers?_of_stops hstop,
        parseModifiers?_of_stops hstop']
      exact sameDeclaration_parseSizes? h before []
    · rw [hs] at hs'
      cases hs'
      rw [parseModifiers?_of_word ht]
      exact rel_or (ih hrest) (sameDeclaration_parseSizes? h before [])
  | case2 before s hs =>
    rcases word?_padded modifierWords h with ⟨-, hstop⟩ | ⟨_, _, _, hs', -, -⟩
    · rw [parseModifiers?_of_stops hstop]
      exact sameDeclaration_parseSizes? h before []
    · rw [hs] at hs'
      cases hs'

end Declaration

end Stencil.Source
