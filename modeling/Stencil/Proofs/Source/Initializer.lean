import Stencil.Proofs.Source.Layout

/-!
# What a declaration declares and uses

A declaration declares the identifier that its name begins with, and uses the identifiers of its
initializer: the words of the text behind its `=` that stand in no literal, number or comment. Both
are the same however the line is spaced, and the blanks that alignment puts before a sign are not in
the initializer. So a line declares and uses in the formatted text what it did before
(`Written.declares_eq`, `Written.uses_eq`).
-/

namespace Stencil.Source

open Text

/-! ## Identifiers of a text -/

/-- What a character of code may be in the middle of. -/
inductive Lexeme where
  /-- Nothing that goes on. -/
  | code
  /-- A word; its letters so far. -/
  | word (letters : List Char)
  /-- A number, with whatever letters stand behind its digits. -/
  | number
  /-- A slash, which may open a comment. -/
  | slash
  /-- A literal, in double quotes or in single ones. -/
  | literal (double : Bool)
  /-- A literal, right behind a backslash. -/
  | escape (double : Bool)
  /-- A comment that an asterisk and a slash end. -/
  | comment
  /-- Such a comment, right behind an asterisk. -/
  | star
  /-- A comment to the end of the line. -/
  | remark
  deriving DecidableEq, Repr

namespace Lexeme

/-- What begins with a character. -/
def start (c : Char) : Lexeme :=
  if isIdentifierStart c then .word [c]
  else if c.isDigit then .number
  else if c = '"' then .literal true
  else if c = '\'' then .literal false
  else if c = '/' then .slash
  else .code

/-- What goes on behind a character. -/
def next : Lexeme → Char → Lexeme
  | .code, c => start c
  | .word letters, c => if isIdentifierChar c then .word (letters ++ [c]) else start c
  | .number, c => if isIdentifierChar c || c = '.' then .number else start c
  | .slash, c => if c = '*' then .comment else if c = '/' then .remark else start c
  | .literal double, c =>
    if c = (if double then '"' else '\'') then .code
    else if c = '\\' then .escape double
    else .literal double
  | .escape double, _ => .literal double
  | .comment, c => if c = '*' then .star else .comment
  | .star, c => if c = '/' then .code else if c = '*' then .star else .comment
  | .remark, _ => .remark

/-- What goes on behind a blank. -/
def settled : Lexeme → Lexeme
  | .code | .word _ | .number | .slash => .code
  | .literal double | .escape double => .literal double
  | .comment | .star => .comment
  | .remark => .remark

/-- The word that is complete if it does not go on. -/
def complete : Lexeme → List (List Char)
  | .word letters => [letters]
  | _ => []

@[simp] theorem settled_settled (s : Lexeme) : s.settled.settled = s.settled := by
  cases s <;> rfl

@[simp] theorem complete_settled (s : Lexeme) : s.settled.complete = [] := by
  cases s <;> rfl

theorem ne_of_isBlank {c d : Char} (hc : isBlank c = true) (hd : isBlank d = false) : c ≠ d := by
  rintro rfl
  rw [hc] at hd
  cases hd

theorem start_of_isBlank {c : Char} (hc : isBlank c = true) : start c = .code := by
  have hdigit : c.isDigit = false := by
    have hchar := Declaration.isIdentifierChar_of_isBlank hc
    unfold isIdentifierChar Char.isAlphanum at hchar
    simp only [Bool.or_eq_false_iff] at hchar
    exact hchar.1.2
  rw [start, Declaration.isIdentifierStart_of_isBlank hc, hdigit, if_neg Bool.false_ne_true,
    if_neg Bool.false_ne_true, if_neg (ne_of_isBlank hc (by decide)),
    if_neg (ne_of_isBlank hc (by decide)), if_neg (ne_of_isBlank hc (by decide))]

theorem next_of_isBlank {c : Char} (hc : isBlank c = true) (s : Lexeme) : s.next c = s.settled := by
  have hchar := Declaration.isIdentifierChar_of_isBlank hc
  have hne : ∀ d, isBlank d = false → c ≠ d := fun d => ne_of_isBlank hc
  cases s with
  | code => exact start_of_isBlank hc
  | word letters => simp [next, settled, hchar, start_of_isBlank hc]
  | number => simp [next, settled, hchar, start_of_isBlank hc, hne '.' (by decide)]
  | slash =>
    simp [next, settled, start_of_isBlank hc, hne '*' (by decide), hne '/' (by decide)]
  | literal double =>
    cases double <;> simp [next, settled, hne '"' (by decide), hne '\'' (by decide),
      hne '\\' (by decide)]
  | escape double => rfl
  | comment => simp [next, settled, hne '*' (by decide)]
  | star => simp [next, settled, hne '*' (by decide), hne '/' (by decide)]
  | remark => rfl

end Lexeme

/-- The identifiers of a text, which goes on in the middle of `s`. -/
def identifiersFrom (s : Lexeme) : List Char → List (List Char)
  | [] => s.complete
  | c :: cs =>
    (if isIdentifierChar c then [] else s.complete) ++ identifiersFrom (s.next c) cs

theorem identifiersFrom_blanks_append {blanks : List Char} (hne : blanks ≠ [])
    (hblanks : blanks.all isBlank) (s : Lexeme) (text : List Char) :
    identifiersFrom s (blanks ++ text) = s.complete ++ identifiersFrom s.settled text := by
  induction blanks generalizing s with
  | nil => exact absurd rfl hne
  | cons b blanks ih =>
    rw [List.all_cons, Bool.and_eq_true] at hblanks
    rw [List.cons_append, identifiersFrom, Declaration.isIdentifierChar_of_isBlank hblanks.1,
      if_neg Bool.false_ne_true, Lexeme.next_of_isBlank hblanks.1]
    cases blanks with
    | nil => rfl
    | cons b' blanks =>
      rw [ih (List.cons_ne_nil _ _) hblanks.2, Lexeme.complete_settled, Lexeme.settled_settled,
        List.nil_append]

/-- A text has the same identifiers however it is spaced. -/
theorem identifiersFrom_respaced {text text' : List Char} (h : Respaced text text') (s : Lexeme) :
    identifiersFrom s text = identifiersFrom s text' := by
  induction h generalizing s with
  | nil => rfl
  | ink hc h ih => rw [identifiersFrom, identifiersFrom, ih]
  | blanks ha hb hablank hbblank _ _ _ _ ih =>
    rw [identifiersFrom_blanks_append ha hablank, identifiersFrom_blanks_append hb hbblank, ih]

/-! ## Initializers -/

/-- What stands behind the first `=` of a text that is not in brackets; `inside` tells whether a
bracket is open. -/
def initializerFrom (inside : Bool) : List Char → List Char
  | [] => []
  | c :: cs =>
    if inside then initializerFrom (c != ']') cs
    else if c = '=' then cs
    else initializerFrom (c = '[') cs

theorem initializerFrom_blanks_append {blanks : List Char} (hblanks : blanks.all isBlank)
    (inside : Bool) (text : List Char) :
    initializerFrom inside (blanks ++ text) = initializerFrom inside text := by
  induction blanks with
  | nil => rfl
  | cons b blanks ih =>
    rw [List.all_cons, Bool.and_eq_true] at hblanks
    have hne : ∀ d, isBlank d = false → b ≠ d := fun d => Lexeme.ne_of_isBlank hblanks.1
    rw [List.cons_append, initializerFrom]
    cases inside with
    | true =>
      have hb : (b != ']') = true := bne_iff_ne.2 (hne ']' (by decide))
      rw [if_pos rfl, hb, ih hblanks.2]
    | false =>
      rw [if_neg Bool.false_ne_true, if_neg (hne '=' (by decide)),
        decide_eq_false (hne '[' (by decide)), ih hblanks.2]

theorem initializerFrom_respaced {text text' : List Char} (h : Respaced text text')
    (inside : Bool) : Respaced (initializerFrom inside text) (initializerFrom inside text') := by
  induction h generalizing inside with
  | nil => exact .nil
  | @ink c s t hc h ih =>
    rw [initializerFrom, initializerFrom]
    split
    · exact ih _
    · split
      · exact h
      · exact ih _
  | blanks _ _ hablank hbblank _ _ _ _ ih =>
    rw [initializerFrom_blanks_append hablank, initializerFrom_blanks_append hbblank]
    exact ih inside

theorem initializerFrom_padded {text text' : List Char} (h : Padded text text')
    (inside : Bool) : initializerFrom inside text = initializerFrom inside text' := by
  induction h generalizing inside with
  | sign value hblanks _ hspaces =>
    rw [initializerFrom_blanks_append hblanks, initializerFrom_blanks_append hspaces]
  | cons hc _ ih =>
    rw [initializerFrom, initializerFrom, if_neg hc, if_neg hc, ih, ih]

/-! ## Lines -/

/-- The identifier that a line declares, if it is a declaration. -/
def declares (line : Line) : Option (List Char) :=
  (Declaration.parse? line).map Declaration.identifier

/-- The identifiers of the initializer of a line. -/
def uses (line : Line) : List (List Char) :=
  identifiersFrom .code (initializerFrom false (trim line))

example : uses "\tint a[ n = 2 ] = g + s->t[ 0x1F ] /* b */ + 'c';".toList =
    ["g", "s", "t"].map String.toList := by decide

theorem isSome_declares (line : Line) : (declares line).isSome = isDeclaration line := by
  rw [declares, Option.isSome_map, isDeclaration]

theorem Declaration.map_identifier_eq {r : Declaration → Declaration → Prop}
    {x y : Option Declaration} (h : Option.Rel r x y)
    (hr : ∀ d d', r d d' → d.identifier = d'.identifier) :
    x.map identifier = y.map identifier := by
  cases h with
  | none => rfl
  | some hd => exact congrArg some (hr _ _ hd)

theorem declares_normalize (level : Nat) (line : Line) :
    declares (normalize level line) = declares line :=
  (Declaration.map_identifier_eq (Declaration.alike_parse?_normalize level line)
    fun _ _ h => h).symm

theorem declares_alignLine (offset : Nat) (line : Line) :
    declares (alignLine offset line) = declares line :=
  (Declaration.map_identifier_eq (sameDeclaration_parse?_alignLine offset line)
    fun _ _ h => h.1).symm

theorem uses_normalize (level : Nat) (line : Line) : uses (normalize level line) = uses line :=
  (identifiersFrom_respaced
    (initializerFrom_respaced (respaced_trim_normalize level line) false) .code).symm

theorem uses_alignLine (offset : Nat) (line : Line) : uses (alignLine offset line) = uses line := by
  rcases padded_trim_alignLine offset line with halign | hpadded
  · rw [halign]
  · rw [uses, uses, initializerFrom_padded hpadded]

section Written

variable {inRun : Prop} {line out : Line} (h : Written inRun line out)

include h

theorem Written.declares_eq : declares out = declares line := by
  cases h with
  | normalized _ level => exact declares_normalize level line
  | aligned _ level offset => rw [declares_alignLine, declares_normalize]

theorem Written.uses_eq : uses out = uses line := by
  cases h with
  | normalized _ level => exact uses_normalize level line
  | aligned _ level offset => rw [uses_alignLine, uses_normalize]

end Written

end Stencil.Source
