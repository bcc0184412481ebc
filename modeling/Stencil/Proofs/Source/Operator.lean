import Stencil.Proofs.Source.Order

/-!
# Operators that end in an equals sign

Alignment takes the first `=` of a line for an assignment sign unless another `=` or an opening
brace stands behind it, and asks nothing of the character before it. So the first `=` of a line is
torn off an operator such as `+=` that it ends, whenever the line is aligned and neither of the two
stands behind the operator; no other operator is torn apart (`operator_adjoins_iff`).
-/

namespace Stencil.Source

open Text

/-- The characters that make an operator with an `=` behind them. -/
def operatorStarts : List Char :=
  "+-*/%&|^<>!".toList

/-- Whether an `=` with `rest` behind it may be an assignment sign. -/
def mayAssign (rest : List Char) : Bool :=
  !(rest.head? = some '=' || (trimStart rest).head? = some '{')

/-- The two texts have the same ink, and characters of an operator that the first ends with, such as
the first `<` in front of `<=`, stand at the end of the second. -/
structure EndsAlike (front front' : List Char) : Prop where
  ink : ink front' = ink front
  operator : ∀ word, (∀ c ∈ word, c ∈ operatorStarts) → word <:+ front → word <:+ front'

/-- An `=` stands right behind the character `op` in `line`, at the place with the ink of `front`
before it, and right before `op` stand the characters of an operator that `front` ends with. -/
def Adjoins (front : List Char) (op : Char) (line : Line) : Prop :=
  ∃ front' rest, line = front' ++ op :: '=' :: rest ∧ EndsAlike front front'

/-! ## Places in a text -/

/-- A place in a text is told by the ink before it. -/
theorem append_cons_inj_of_ink {c : Char} (hc : isBlank c = false)
    {front front' rest rest' : List Char} (h : front ++ c :: rest = front' ++ c :: rest')
    (hink : ink front = ink front') : rest = rest' := by
  have hcons : ∀ text, ink (c :: text) ≠ [] := by simp [ink, hc]
  induction front generalizing front' with
  | nil =>
    cases front' with
    | nil => exact (List.cons.inj h).2
    | cons d front' =>
      obtain ⟨rfl, -⟩ := List.cons.inj h
      exact absurd hink.symm (hcons front')
  | cons d front ih =>
    cases front' with
    | nil =>
      obtain ⟨rfl, -⟩ := List.cons.inj h
      exact absurd hink (hcons front)
    | cons d' front' =>
      obtain ⟨rfl, htail⟩ := List.cons.inj h
      rw [ink_cons d front, ink_cons d front'] at hink
      exact ih htail (List.append_cancel_left hink)

theorem expandTabs_append_cons {c : Char} (hc : isMargin c = false) (pending : Nat)
    (front rest : List Char) :
    expandTabs pending (front ++ c :: rest) =
      expandTabs pending front ++ c :: expandTabs 0 rest := by
  induction front generalizing pending with
  | nil => exact expandTabs_cons hc pending rest
  | cons d front ih =>
    rw [List.cons_append]
    cases hd : isMargin d with
    | true =>
      rcases eq_of_isMargin hd with rfl | rfl
      · rw [expandTabs_space, expandTabs_space, ih]
      · rw [expandTabs_tab, expandTabs_tab, ih]
        simp only [List.append_assoc]
    | false =>
      rw [expandTabs_cons hd, expandTabs_cons hd, ih, List.append_assoc, List.cons_append]

/-! ## Texts that end alike -/

theorem of_mem_operatorStarts {op : Char} (h : op ∈ operatorStarts) :
    isBlank op = false ∧ '=' ≠ op := by
  have hall : (operatorStarts.all fun op => !isBlank op && '=' != op) = true := by decide
  simpa using List.all_eq_true.1 hall op h

theorem EndsAlike.refl (front : List Char) : EndsAlike front front :=
  ⟨rfl, fun _ _ h => h⟩

theorem EndsAlike.trans {front front' front'' : List Char} (h : EndsAlike front front')
    (h' : EndsAlike front' front'') : EndsAlike front front'' :=
  ⟨h'.ink.trans h.ink,
    fun word hword hsuffix => h'.operator word hword (h.operator word hword hsuffix)⟩

theorem suffix_of_suffix_append_cons {c : Char} {word front rest : List Char} (hc : c ∉ word)
    (h : word <:+ front ++ c :: rest) : word <:+ rest := by
  rcases List.suffix_or_suffix_of_suffix h (List.suffix_append front (c :: rest)) with h' | h'
  · rcases List.suffix_cons_iff.1 h' with rfl | h'
    · exact absurd List.mem_cons_self hc
    · exact h'
  · exact absurd (h'.mem List.mem_cons_self) hc

/-- What stands before a sign may end differently as long as the sign stays. -/
theorem EndsAlike.append_sign {front front' : List Char} (h : Text.ink front' = Text.ink front)
    (rest : List Char) : EndsAlike (front ++ '=' :: rest) (front' ++ '=' :: rest) where
  ink := by rw [ink_append, h, ← ink_append]
  operator := by
    intro word hword hsuffix
    have hsign : '=' ∉ word := fun hmem => (of_mem_operatorStarts (hword _ hmem)).2 rfl
    have hrest : word <:+ rest := suffix_of_suffix_append_cons hsign hsuffix
    exact hrest.trans ((List.suffix_cons _ _).trans (List.suffix_append _ _))

theorem suffix_dropWhile_isMargin {word text : List Char} (hword : ∀ c ∈ word, isMargin c = false)
    (h : word <:+ text) : word <:+ text.dropWhile isMargin := by
  obtain ⟨before, rfl⟩ := h
  have hkept : word.dropWhile isMargin = word := by
    rw [List.dropWhile_eq_self_iff]
    intro hpos
    rw [hword _ (List.getElem_mem hpos)]
    exact Bool.false_ne_true
  rw [List.dropWhile_append]
  split
  · rw [hkept]
  · exact List.suffix_append _ _

theorem suffix_expandTabs {word text : List Char} (hword : ∀ c ∈ word, isMargin c = false)
    (pending : Nat) (h : word <:+ text) : word <:+ expandTabs pending text := by
  obtain ⟨before, rfl⟩ := h
  cases word with
  | nil => exact List.nil_suffix
  | cons c rest =>
    obtain ⟨hc, hrest⟩ := List.forall_mem_cons.1 hword
    have htab : '\t' ∉ rest := fun hmem => by cases hrest _ hmem
    rw [expandTabs_append_cons hc, expandTabs_of_not_mem_tab 0 htab]
    exact List.suffix_append _ _

/-- What a line ends with before its content is normalized it ends with afterwards. -/
theorem endsAlike_expandTabs {blanks : List Char} (hblanks : blanks.all isBlank)
    (front : List Char) :
    EndsAlike front (blanks ++ expandTabs 0 (front.dropWhile isMargin)) where
  ink := by
    have hfront : Text.ink (margin front ++ front.dropWhile isMargin) = Text.ink front := by
      rw [margin_append_dropWhile]
    rw [ink_append, ink_eq_nil (all_isBlank_margin front)] at hfront
    rw [ink_append, ink_eq_nil hblanks, ← (respaced_expandTabs_zero _).ink_eq, hfront]
  operator := by
    intro word hword hsuffix
    have hmargin : ∀ c ∈ word, isMargin c = false :=
      fun c hc => isMargin_of_ink (of_mem_operatorStarts (hword c hc)).1
    exact (suffix_expandTabs hmargin 0 (suffix_dropWhile_isMargin hmargin hsuffix)).trans
      (List.suffix_append _ _)

/-- In the normalized line the same stands before a character that is no blank. -/
theorem exists_normalize_append_cons {c : Char} (hc : isBlank c = false) (level : Nat)
    (front rest : List Char) :
    ∃ front', EndsAlike front front' ∧
      normalize level (front ++ c :: rest) = front' ++ c :: expandTabs 0 (trimEnd rest) := by
  have hmargin : isMargin c = false := isMargin_of_ink hc
  have hdrop : (front ++ c :: rest).dropWhile isMargin = front.dropWhile isMargin ++ c :: rest := by
    rw [List.dropWhile_append, List.dropWhile_cons_of_neg (by simp [hmargin])]
    split
    · next hnil => rw [List.isEmpty_iff.1 hnil, List.nil_append]
    · rfl
  have hcontent : content (front ++ c :: rest) =
      front.dropWhile isMargin ++ c :: trimEnd rest := by
    rw [content, hdrop, trimEnd_append_cons hc]
  obtain ⟨blanks, hblanks, hnormalize⟩ := exists_normalize_eq level (front ++ c :: rest)
  refine ⟨_, endsAlike_expandTabs hblanks front, ?_⟩
  rw [hnormalize, hcontent, expandTabs_append_cons hmargin, List.append_assoc]

/-! ## Operators -/

theorem head?_trimEnd_eq_some_iff {c : Char} (hc : isBlank c = false) (text : List Char) :
    (trimEnd text).head? = some c ↔ text.head? = some c := by
  rw [← singleton_prefix_iff, ← singleton_prefix_iff]
  constructor
  · exact fun h => h.trans (prefix_trimEnd text)
  · rintro ⟨rest, rfl⟩
    exact ⟨trimEnd rest, (trimEnd_cons_of_ink hc rest).symm⟩

/-- What may stand behind an assignment sign is the same in a normalized line. -/
theorem mayAssign_expandTabs_trimEnd (rest : List Char) :
    mayAssign (expandTabs 0 (trimEnd rest)) = mayAssign rest := by
  have hsign : (expandTabs 0 (trimEnd rest)).head? = some '=' ↔ rest.head? = some '=' := by
    rw [← (respaced_expandTabs_zero _).head?_eq_some_iff (by decide),
      head?_trimEnd_eq_some_iff (by decide)]
  have hbrace : (trimStart (expandTabs 0 (trimEnd rest))).head? = some '{' ↔
      (trimStart rest).head? = some '{' := by
    rw [trimStart_expandTabs, ← (respaced_expandTabs_zero _).head?_eq_some_iff (by decide),
      trimStart_trimEnd, head?_trim]
  simp only [mayAssign, hsign, hbrace]

section operator

variable {op : Char} (hop : op ∈ operatorStarts) {front : List Char}

include hop

/-- A normalized line has the operators that it had before. -/
theorem exists_normalize_operator (level : Nat) (front rest : List Char) :
    ∃ front', EndsAlike front front' ∧
      normalize level (front ++ op :: '=' :: rest) =
        front' ++ op :: '=' :: expandTabs 0 (trimEnd rest) := by
  obtain ⟨front', halike, hnormalize⟩ :=
    exists_normalize_append_cons (of_mem_operatorStarts hop).1 level front ('=' :: rest)
  rw [trimEnd_cons_of_ink (by decide), expandTabs_cons (by decide)] at hnormalize
  exact ⟨front', halike, hnormalize⟩

variable (hfront : '=' ∉ front)

include hfront

theorem splitAssignment?_operator (rest : List Char) :
    splitAssignment? (front ++ op :: '=' :: rest) =
      if mayAssign rest then some (front ++ [op], '=' :: rest) else none := by
  obtain ⟨hblank, hne⟩ := of_mem_operatorStarts hop
  have hbefore : '=' ∉ front ++ [op] := by
    rw [List.mem_append, List.mem_singleton, not_or]
    exact ⟨hfront, hne⟩
  obtain ⟨htake, hdrop⟩ := takeWhile_sign_append hbefore rest
  have htrim : trimEnd (front ++ [op]) = front ++ [op] := trimEnd_append_cons hblank front []
  have hink : (front ++ [op]).all isBlank = false := by
    rw [List.all_append, List.all_cons, hblank, Bool.false_and, Bool.and_false]
  rw [List.append_cons, splitAssignment?, htake, hdrop, htrim]
  simp only [hink, Bool.false_eq_true, if_false]
  unfold mayAssign
  split
  · next hassign => rw [hassign, Bool.not_true, if_neg Bool.false_ne_true]
  · next hassign => rw [Bool.eq_false_iff.2 hassign, Bool.not_false, if_pos rfl]

/-- An operator of which the `=` is taken for an assignment sign is torn apart. -/
theorem exists_alignLine_operator {rest : List Char} (hrest : mayAssign rest = true)
    (offset : Nat) :
    ∃ n, alignLine offset (front ++ op :: '=' :: rest) =
      front ++ op :: ' ' :: (List.replicate n ' ' ++ '=' :: rest) := by
  obtain ⟨n, hn⟩ : ∃ n, max (offset - width (front ++ [op])) 1 = n + 1 :=
    Nat.exists_eq_add_one.2 (by omega)
  refine ⟨n, ?_⟩
  rw [alignLine, splitAssignment?_operator hop hfront, if_pos hrest]
  simp only [hn, List.replicate_succ, List.append_assoc, List.cons_append, List.nil_append]

theorem alignLine_operator {rest : List Char} (hrest : mayAssign rest = false) (offset : Nat) :
    alignLine offset (front ++ op :: '=' :: rest) = front ++ op :: '=' :: rest := by
  rw [alignLine, splitAssignment?_operator hop hfront, hrest, if_neg Bool.false_ne_true]

theorem alignLine_operator_eq_iff (rest : List Char) (offset : Nat) :
    alignLine offset (front ++ op :: '=' :: rest) = front ++ op :: '=' :: rest ↔
      mayAssign rest = false := by
  refine ⟨fun heq => ?_, fun hrest => alignLine_operator hop hfront hrest offset⟩
  rw [← Bool.not_eq_true]
  intro hrest
  obtain ⟨n, halign⟩ := exists_alignLine_operator hop hfront hrest offset
  rw [halign, List.append_cancel_left_eq] at heq
  cases heq

end operator

/-! ## Lines as they are given out -/

/-- Aligning a line changes nothing from its first `=` on. -/
theorem exists_alignLine_append {front : List Char} (hfront : '=' ∉ front) (rest : List Char)
    (offset : Nat) :
    ∃ front', ink front' = ink front ∧
      alignLine offset (front ++ '=' :: rest) = front' ++ '=' :: rest := by
  rcases alignLine_cases offset (front ++ '=' :: rest) with
    ⟨-, halign⟩ | ⟨before, blanks, spaces, value, h, -, h', -, hline, halign⟩
  · exact ⟨front, rfl, halign⟩
  · obtain ⟨htake, hdrop⟩ := takeWhile_sign_append hfront rest
    obtain ⟨htake', hdrop'⟩ := takeWhile_sign_append h.not_mem_sign_append value
    rw [hline, ← List.append_assoc] at htake hdrop
    rw [htake'] at htake
    rw [hdrop'] at hdrop
    cases hdrop
    refine ⟨before ++ spaces, ?_, by rw [halign, List.append_assoc]⟩
    rw [← htake, ink_append, ink_append, ink_eq_nil h'.blanks, ink_eq_nil h.blanks]

/-- Of the operators of a line alignment tears apart the one that ends in the sign of the line. -/
theorem adjoins_alignLine_iff {op : Char} (hop : op ∈ operatorStarts) {before front : List Char}
    (h : EndsAlike before front) (rest : List Char) (offset : Nat) :
    Adjoins before op (alignLine offset (front ++ op :: '=' :: rest)) ↔
      ¬('=' ∉ front ∧ mayAssign rest = true) := by
  by_cases hfront : '=' ∈ front
  · -- The first `=` of the line stands before the operator, which is behind it as it was.
    refine iff_of_true ?_ fun hnot => hnot.1 hfront
    obtain ⟨start, middle, rfl, hstart⟩ := List.eq_append_cons_of_mem hfront
    obtain ⟨start', hink, halign⟩ :=
      exists_alignLine_append hstart (middle ++ op :: '=' :: rest) offset
    rw [List.append_assoc, List.cons_append, halign]
    refine ⟨start' ++ '=' :: middle, rest, ?_, h.trans (.append_sign hink middle)⟩
    rw [List.append_assoc, List.cons_append]
  · cases hassign : mayAssign rest with
    | false =>
      rw [alignLine_operator hop hfront hassign]
      exact iff_of_true ⟨front, rest, rfl, h⟩ fun hnot => Bool.false_ne_true hnot.2
    | true =>
      refine iff_of_false ?_ fun hnot => hnot ⟨hfront, rfl⟩
      rintro ⟨front', rest', heq, halike⟩
      obtain ⟨n, halign⟩ := exists_alignLine_operator hop hfront hassign offset
      rw [halign] at heq
      have hink : ink front = ink front' := h.ink.trans halike.ink.symm
      have htorn := append_cons_inj_of_ink (of_mem_operatorStarts hop).1 heq hink
      cases htorn

theorem Written.adjoins_iff {inRun : Prop} {op : Char} (hop : op ∈ operatorStarts)
    {front rest : List Char} {out : Line} (h : Written inRun (front ++ op :: '=' :: rest) out) :
    Adjoins front op out ↔ ¬(inRun ∧ '=' ∉ front ∧ mayAssign rest = true) := by
  cases h with
  | normalized hrun level =>
    obtain ⟨front', halike, hnormalize⟩ := exists_normalize_operator hop level front rest
    exact iff_of_true ⟨front', _, hnormalize, halike⟩ fun hnot => hrun hnot.1
  | aligned hrun level offset =>
    obtain ⟨front', halike, hnormalize⟩ := exists_normalize_operator hop level front rest
    have hsign : '=' ∈ front' ↔ '=' ∈ front := by
      rw [← mem_ink_iff (by decide), halike.ink, mem_ink_iff (by decide)]
    rw [hnormalize, adjoins_alignLine_iff hop halike, hsign, mayAssign_expandTabs_trimEnd]
    exact not_congr (iff_and_self.2 fun _ => hrun)

/-! ## The whole -/

/-- Aligning leaves a line whose first `=` ends an operator as it is exactly if another `=` or an
opening brace stands behind the operator. In the formatted text an operator is in one piece exactly
if it is not the one that ends in the first `=` of a line of a run, or one of the two stands behind
it. -/
theorem operator_adjoins_iff (lines : List Line) :
    (∀ (offset : Nat) (i : Nat) (op : Char) (front rest : List Char), op ∈ operatorStarts →
      '=' ∉ front → lines[i]? = some (front ++ op :: '=' :: rest) →
        ((alignTo offset lines)[i]? = some (front ++ op :: '=' :: rest) ↔
          mayAssign rest = false)) ∧
    ∃ σ : Fin lines.length ≃ Fin (formatLines lines).length,
      FormatsBy lines (formatLines lines) σ ∧
      ∀ (i : Fin lines.length) (op : Char) (front rest : List Char), op ∈ operatorStarts →
        lines.get i = front ++ op :: '=' :: rest →
          (Adjoins front op ((formatLines lines).get (σ i)) ↔
            ¬(InRun lines i ∧ '=' ∉ front ∧ mayAssign rest = true)) := by
  constructor
  · intro offset i op front rest hop hfront hline
    rw [alignTo, List.getElem?_map, hline, Option.map_some, Option.some.injEq]
    exact alignLine_operator_eq_iff hop hfront rest offset
  · obtain ⟨σ, h⟩ := exists_formatsBy lines
    refine ⟨σ, h, fun i op front rest hop hline => ?_⟩
    have hwritten := h.written i
    rw [hline] at hwritten
    exact hwritten.adjoins_iff hop

/-- A function that adds one to a variable. -/
def addingBody : List Line :=
  ["f()", "\x7b", "\ta += 1;", "\x7d"].map String.toList

/-- The operator of the line is torn apart, by aligning and so by formatting. -/
theorem operator_torn_apart :
    alignTo 0 ["a += 1;".toList] = ["a + = 1;".toList] ∧
      formatLines addingBody =
        ["f()", "\x7b", "\ta + = 1;", "\x7d"].map String.toList :=
  ⟨by decide, by decide +kernel⟩

end Stencil.Source
