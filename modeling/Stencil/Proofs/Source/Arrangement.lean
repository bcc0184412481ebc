import Stencil.Proofs.Source.Alignment
import Stencil.Proofs.Source.Declarator

/-!
# Runs without `=` in brackets

Nothing in a declaration before its initializer can hold an `=`, but for the brackets of its name
(`signInBrackets_of_parse?`). So if the first `=` of no line stands in brackets, the lines of an
arranged run are the declarations that they were before they were aligned, and the run is arranged
for good (`arrange_stable`). A line with such brackets is another declaration when it is aligned
(`parse?_alignLine_brackets`).
-/

namespace Stencil.Source

open Text

/-- The first `=` of a line stands in brackets: of the brackets before it the last one opens, and
there is one behind it that closes. -/
def SignInBrackets (line : Line) : Prop :=
  ((line.takeWhile (· != '=')).reverse.find? fun c => c = '[' || c = ']') = some '[' ∧
    ']' ∈ line.dropWhile (· != '=')

instance (line : Line) : Decidable (SignInBrackets line) :=
  inferInstanceAs (Decidable (_ ∧ _))

namespace SignInBrackets

variable {text rest : List Char}

theorem of_append {front inside back : List Char} (hfront : '=' ∉ front ++ '[' :: inside)
    (hinside : ']' ∉ inside) (hback : ']' ∈ back) :
    SignInBrackets (front ++ '[' :: inside ++ '=' :: back) := by
  obtain ⟨htake, hdrop⟩ := takeWhile_sign_append hfront back
  rw [SignInBrackets, htake, hdrop]
  refine ⟨?_, List.mem_cons_of_mem _ hback⟩
  rw [List.reverse_append, List.reverse_cons, List.append_assoc, List.find?_append]
  -- The last bracket may be one of those inside, but none of them closes.
  cases hfind : inside.reverse.find? fun c => c = '[' || c = ']' with
  | none => rfl
  | some c =>
    have hmem : c ∈ inside := List.mem_reverse.1 (List.mem_of_find?_eq_some hfind)
    have hc := List.find?_some hfind
    simp only [Bool.or_eq_true, decide_eq_true_eq] at hc
    obtain rfl | rfl := hc
    · rfl
    · exact absurd hmem hinside

theorem append_left {front : List Char} (hfront : '=' ∉ front) (h : SignInBrackets text) :
    SignInBrackets (front ++ text) := by
  have hall : ∀ c ∈ front, (c != '=') = true := by
    intro c hc
    rw [bne_iff_ne]
    rintro rfl
    exact hfront hc
  rw [SignInBrackets, List.takeWhile_append_of_pos hall, List.dropWhile_append_of_pos hall,
    List.reverse_append, List.find?_append, h.1]
  exact ⟨rfl, h.2⟩

theorem append_right (h : SignInBrackets text) (rest : List Char) :
    SignInBrackets (text ++ rest) := by
  have hfront : '=' ∉ text.takeWhile (· != '=') := by
    intro hmem
    exact absurd (List.mem_takeWhile_imp hmem) (by decide)
  have hsplit : text.takeWhile (· != '=') ++ text.dropWhile (· != '=') = text :=
    List.takeWhile_append_dropWhile
  obtain ⟨hlast, hmem⟩ := h
  cases hdrop : text.dropWhile (· != '=') with
  | nil =>
    rw [hdrop] at hmem
    cases hmem
  | cons c back =>
    have hc := List.head?_dropWhile_not (· != '=') text
    rw [hdrop] at hc hmem hsplit
    obtain rfl : c = '=' := by simpa using hc
    obtain ⟨htake, hdrop'⟩ := takeWhile_sign_append hfront (back ++ rest)
    rw [← List.cons_append, ← List.append_assoc, hsplit] at htake hdrop'
    rw [SignInBrackets, htake, hdrop']
    exact ⟨hlast, List.mem_append_left _ hmem⟩

end SignInBrackets

namespace Declaration

/-- The rest of a text stands behind a part without `=`. -/
def Behind (text rest : List Char) : Prop :=
  ∃ front, text = front ++ rest ∧ '=' ∉ front

section Behind

variable {text rest rest' : List Char}

theorem Behind.signInBrackets (h : Behind text rest) (hrest : SignInBrackets rest) :
    SignInBrackets text := by
  obtain ⟨front, rfl, hfront⟩ := h
  exact hrest.append_left hfront

theorem Behind.trans (h : Behind text rest) (h' : Behind rest rest') : Behind text rest' := by
  obtain ⟨front, rfl, hfront⟩ := h
  obtain ⟨front', rfl, hfront'⟩ := h'
  refine ⟨front ++ front', (List.append_assoc ..).symm, ?_⟩
  rw [List.mem_append, not_or]
  exact ⟨hfront, hfront'⟩

theorem behind_dropWhile {p : Char → Bool} (hp : p '=' = false) (text : List Char) :
    Behind text (text.dropWhile p) := by
  refine ⟨text.takeWhile p, List.takeWhile_append_dropWhile.symm, fun hmem => ?_⟩
  rw [List.mem_takeWhile_imp hmem] at hp
  cases hp

theorem not_mem_sign_of_isIdentifier {name : List Char} (h : isIdentifier name = true) :
    '=' ∉ name := by
  intro hmem
  exact absurd (List.all_eq_true.1 (all_isIdentifierChar h) _ hmem) (by decide)

theorem behind_of_identifier? {name : List Char} (h : identifier? text = some (name, rest)) :
    Behind text rest :=
  ⟨name, (append_of_identifier? h).symm,
    not_mem_sign_of_isIdentifier (isIdentifier_of_identifier? h)⟩

theorem behind_of_word? {words : List (List Char)} {taken : List Char}
    (h : word? words text = some (taken, rest)) : Behind text rest := by
  obtain ⟨⟨word, after⟩, hword, h⟩ := Option.bind_eq_some_iff.1 h
  dsimp only at h
  split at h
  · cases h
    exact (behind_of_identifier? hword).trans (behind_dropWhile (by decide) after)
  · cases h

theorem behind_of_gap? {star : Bool} (h : gap? text = some (star, rest)) : Behind text rest := by
  have hblanks := behind_dropWhile (p := isBlank) (by decide) text
  by_cases hstar : (text.dropWhile isBlank).head? = some '*'
  · obtain ⟨stars, hstars⟩ := List.head?_eq_some_iff.1 hstar
    rw [gap?_of_star hstars] at h
    cases h
    have hfirst : Behind (text.dropWhile isBlank) stars := ⟨['*'], hstars, by decide⟩
    exact hblanks.trans <| hfirst.trans <|
      (behind_dropWhile (by decide) stars).trans (behind_dropWhile (by decide) _)
  · rw [gap?_of_not_star hstar] at h
    split at h
    · cases h
    · cases h
      exact hblanks

end Behind

/-- An `=` in brackets behind a name is the first one in brackets, or one before it is. -/
theorem Brackets.signInBrackets {suffix : List Char} (h : Brackets suffix) (hsign : '=' ∈ suffix) :
    SignInBrackets suffix := by
  induction h with
  | nil => cases hsign
  | @cons inside rest hinside _ ih =>
    by_cases hmem : '=' ∈ inside
    · obtain ⟨front, back, rfl, hfront⟩ := List.eq_append_cons_of_mem hmem
      rw [List.mem_append, not_or] at hinside
      have hclosed : ']' ∈ back ++ ']' :: rest := List.mem_append_right _ List.mem_cons_self
      have hopen : '=' ∉ [] ++ '[' :: front := by simpa using hfront
      rw [List.append_assoc, List.cons_append]
      exact .of_append hopen hinside.1 hclosed
    · have hfront : '=' ∉ '[' :: (inside ++ [']']) := by simpa using hmem
      have hrest : '=' ∈ rest := by simpa [hmem] using hsign
      have hsuffix : '[' :: (inside ++ ']' :: rest) = '[' :: (inside ++ [']']) ++ rest := by simp
      rw [hsuffix]
      exact (ih hrest).append_left hfront

section parse

variable {modifiers before text : List Char} {d : Declaration}

theorem signInBrackets_of_parseType? (h : parseType? modifiers before text = some d)
    (hsign : '=' ∈ d.name) : SignInBrackets text := by
  obtain ⟨⟨word, rest⟩, hword, h⟩ := Option.bind_eq_some_iff.1 h
  obtain ⟨⟨star, named⟩, hgap, h⟩ := Option.bind_eq_some_iff.1 h
  obtain ⟨⟨name, rest'⟩, hname, h⟩ := Option.bind_eq_some_iff.1 h
  obtain ⟨⟨suffix, ending⟩, hsuffix, h⟩ := Option.bind_eq_some_iff.1 h
  dsimp only at hgap hname hsuffix h
  split at h
  · cases h
    obtain ⟨rfl, hbrackets⟩ := exists_of_brackets hsuffix
    have hmem : '=' ∈ suffix := by
      rcases List.mem_append.1 hsign with hmem | hmem
      · exact absurd hmem (not_mem_sign_of_isIdentifier (isIdentifier_of_identifier? hname))
      · exact hmem
    have hbehind : Behind text (suffix ++ ending) :=
      (behind_of_identifier? hword).trans <| (behind_of_gap? hgap).trans <|
        behind_of_identifier? hname
    exact hbehind.signInBrackets ((Brackets.signInBrackets hbrackets hmem).append_right ending)
  · cases h

theorem signInBrackets_of_parseSizes? (h : parseSizes? modifiers before text = some d)
    (hsign : '=' ∈ d.name) : SignInBrackets text := by
  fun_induction parseSizes? modifiers before text with
  | case1 before text taken rest hword ih =>
    rcases Option.or_eq_some_iff.1 h with h | ⟨-, h⟩
    · exact (behind_of_word? hword).signInBrackets (ih h)
    · exact signInBrackets_of_parseType? h hsign
  | case2 before text => exact signInBrackets_of_parseType? h hsign

theorem signInBrackets_of_parseModifiers? (h : parseModifiers? before text = some d)
    (hsign : '=' ∈ d.name) : SignInBrackets text := by
  fun_induction parseModifiers? before text with
  | case1 before text taken rest hword ih =>
    rcases Option.or_eq_some_iff.1 h with h | ⟨-, h⟩
    · exact (behind_of_word? hword).signInBrackets (ih h)
    · exact signInBrackets_of_parseSizes? h hsign
  | case2 before text => exact signInBrackets_of_parseSizes? h hsign

end parse

/-- A declaration has an `=` in its name only if the first `=` of the line stands in brackets. -/
theorem signInBrackets_of_parse? {line : Line} {d : Declaration} (h : parse? line = some d)
    (hsign : '=' ∈ d.name) : SignInBrackets line := by
  obtain ⟨blanks, htrim, -⟩ := trimEnd_append (trimStart line)
  have hstart : Behind line (trimStart line) := behind_dropWhile (by decide) line
  apply hstart.signInBrackets
  rw [htrim]
  exact (signInBrackets_of_parseModifiers? h hsign).append_right blanks

end Declaration

/-- If the first `=` of no line stands in brackets, each line of the arranged run is the declaration
that it was before it was aligned, or still none, and arranging the run again changes nothing. -/
theorem arrange_stable {lines : List Line} (h : ∀ line ∈ lines, ¬SignInBrackets line) :
    (arrange lines).map Declaration.parse? = (sortDeclarations lines).map Declaration.parse? ∧
      arrange (arrange lines) = arrange lines := by
  have hnames : ∀ line ∈ lines, ∀ d, Declaration.parse? line = some d → '=' ∉ d.name :=
    fun line hline d hd hsign => h line hline (Declaration.signInBrackets_of_parse? hd hsign)
  refine ⟨?_, arrange_arrange hnames⟩
  obtain ⟨offset, hoffset⟩ := exists_align_eq_alignTo (sortDeclarations lines)
  rw [arrange, hoffset, alignTo, List.map_map, List.map_inj_left]
  intro line hline
  exact parse?_alignLine (hnames line ((perm_stableSort _ lines).mem_iff.1 hline)) offset

/-- An array whose size is computed, a pointer, a comparison in the brackets of an initializer, and
a line that is no declaration. -/
def arrays : List Line :=
  ["\tint sizes[ 2 ]=\x7b 0 \x7d;", "\tn = 1;", "\tint first = sizes[ n == 1 ];",
    "\tchar *text= 0;"].map String.toList

theorem arrange_stable_arrays :
    (∀ line ∈ arrays, ¬SignInBrackets line) ∧
      (arrange arrays).map Declaration.parse? =
        (sortDeclarations arrays).map Declaration.parse? ∧
      arrange (arrange arrays) = arrange arrays ∧
      arrange arrays =
        ["\tchar *text = 0;", "\tint first  = sizes[ n == 1 ];",
          "\tint sizes[ 2 ]=\x7b 0 \x7d;", "\tn          = 1;"].map String.toList := by
  have hlines : ∀ line ∈ arrays, ¬SignInBrackets line := by decide
  obtain ⟨hparse, hagain⟩ := arrange_stable hlines
  exact ⟨hlines, hparse, hagain, by decide +kernel⟩

/-- An `=` in brackets gets a space before it, which belongs to the name. -/
theorem parse?_alignLine_brackets :
    let line := "int a[n=2] = 1;".toList
    SignInBrackets line ∧
      (Declaration.parse? line).map Declaration.name = some "a[n=2]".toList ∧
      (Declaration.parse? (alignLine 0 line)).map Declaration.name = some "a[n =2]".toList := by
  decide +kernel

end Stencil.Source
