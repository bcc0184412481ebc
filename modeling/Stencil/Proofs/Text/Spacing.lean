import Mathlib.Data.List.Basic
import Mathlib.Data.List.TakeWhile
import Stencil.Text.Blank

/-!
# Texts that differ in their blanks

Two texts have the same *ink* if they are equal once the blanks are taken out. `Respaced` says more:
that blanks stand at the same places of both, though perhaps not as many or others. Only line feeds
are told apart, as initializers may not hold any. What readers of a text see of it, the longest
start of characters of a class, what follows it, the text without blanks at its ends, is respaced as
well (`Respaced.takeWhile_eq_and_dropWhile`, `Respaced.trim`).
-/

namespace Stencil.Text

/-! ## Ink -/

/-- The characters of a text that are not blank. -/
def ink (text : List Char) : List Char :=
  text.filter fun c => !isBlank c

@[simp] theorem ink_append (left right : List Char) : ink (left ++ right) = ink left ++ ink right :=
  List.filter_append ..

theorem ink_cons (c : Char) (text : List Char) : ink (c :: text) = ink [c] ++ ink text :=
  ink_append [c] text

theorem ink_eq_nil {text : List Char} (h : text.all isBlank) : ink text = [] := by
  rw [ink, List.filter_eq_nil_iff]
  intro c hc
  simpa using List.all_eq_true.1 h c hc

@[simp] theorem ink_replicate_space (n : Nat) : ink (List.replicate n ' ') = [] := by
  apply ink_eq_nil
  rw [List.all_eq_true]
  intro c hc
  rw [List.eq_of_mem_replicate hc]
  decide

@[simp] theorem ink_trimEnd (text : List Char) : ink (trimEnd text) = ink text := by
  obtain ⟨blanks, htext, hblanks⟩ := trimEnd_append text
  conv => rhs; rw [htext, ink_append, ink_eq_nil hblanks, List.append_nil]

@[simp] theorem ink_trimStart (text : List Char) : ink (trimStart text) = ink text := by
  induction text with
  | nil => rfl
  | cons c cs ih =>
    cases hc : isBlank c with
    | true =>
      have hstart : trimStart (c :: cs) = trimStart cs := by simp [trimStart, hc]
      have hink : ink (c :: cs) = ink cs := by simp [ink, hc]
      rw [hstart, hink, ih]
    | false =>
      have hstart : trimStart (c :: cs) = c :: cs := by simp [trimStart, hc]
      rw [hstart]

theorem ink_trim (text : List Char) : ink (trim text) = ink text := by
  rw [trim, ink_trimEnd, ink_trimStart]

/-- A trimmed text begins with its ink. -/
theorem head?_ink_trim (text : List Char) : (ink text).head? = (trim text).head? := by
  rw [← ink_trim]
  cases htext : trim text with
  | nil => rfl
  | cons c cs =>
    have hc : isBlank c = false := by
      have hstart : (trimStart text).head? = some c := by
        obtain ⟨blanks, happend, -⟩ := trimEnd_append (trimStart text)
        rw [happend, show trimEnd (trimStart text) = c :: cs from htext]
        rfl
      have hdrop := List.head?_dropWhile_not isBlank text
      rw [show text.dropWhile isBlank = trimStart text from rfl, hstart] at hdrop
      simpa using hdrop
    simp [ink, hc]

/-! ## Trimming -/

theorem trimEnd_cons_of_ink {c : Char} (hc : isBlank c = false) (text : List Char) :
    trimEnd (c :: text) = c :: trimEnd text := by
  cases htext : trimEnd text with
  | nil => simp [trimEnd, htext, hc]
  | cons d ds => simp [trimEnd, htext]

theorem trimEnd_blanks {blanks : List Char} (h : blanks.all isBlank) : trimEnd blanks = [] := by
  induction blanks with
  | nil => rfl
  | cons b blanks ih =>
    rw [List.all_cons, Bool.and_eq_true] at h
    simp [trimEnd, ih h.2, h.1]

theorem trimEnd_blanks_append {blanks text : List Char} (h : blanks.all isBlank)
    (htext : trimEnd text ≠ []) : trimEnd (blanks ++ text) = blanks ++ trimEnd text := by
  induction blanks with
  | nil => rfl
  | cons b blanks ih =>
    rw [List.all_cons, Bool.and_eq_true] at h
    have hrest := ih h.2
    cases hcons : blanks ++ trimEnd text with
    | nil => exact absurd (List.append_eq_nil_iff.1 hcons).2 htext
    | cons c cs =>
      rw [hcons] at hrest
      simp [trimEnd, hrest, hcons]

theorem trimEnd_blanks_append_of_nil {blanks text : List Char} (h : blanks.all isBlank)
    (htext : trimEnd text = []) : trimEnd (blanks ++ text) = [] := by
  obtain ⟨blanks', happend, hblanks'⟩ := trimEnd_append text
  rw [htext, List.nil_append] at happend
  apply trimEnd_blanks
  rw [List.all_append, h, happend, hblanks', Bool.and_self]

theorem trimEnd_append_blanks {blanks : List Char} (text : List Char) (h : blanks.all isBlank) :
    trimEnd (text ++ blanks) = trimEnd text := by
  induction text with
  | nil => exact trimEnd_blanks h
  | cons c cs ih => simp only [List.cons_append, trimEnd, ih]

/-- Trimming at the end first changes nothing. -/
theorem trim_trimEnd (text : List Char) : trim (trimEnd text) = trim text := by
  obtain ⟨blanks, htext, hblanks⟩ := trimEnd_append text
  have hstart : trimStart text = trimStart (trimEnd text) ++ blanks ∨
      trimStart text = [] ∧ trimStart (trimEnd text) = [] := by
    unfold trimStart
    by_cases hall : (trimEnd text).all isBlank
    · right
      have hnil : trimEnd text = [] := by
        cases hlast : (trimEnd text).getLast? with
        | none => simpa using hlast
        | some c =>
          have hc := not_isBlank_of_getLast?_trimEnd hlast
          have := List.all_eq_true.1 hall c (List.mem_of_getLast? hlast)
          rw [hc] at this
          cases this
      rw [hnil, List.nil_append] at htext
      rw [hnil, htext, List.dropWhile_eq_nil_iff]
      exact ⟨List.all_eq_true.1 hblanks, rfl⟩
    · left
      conv => lhs; rw [htext]
      rw [List.dropWhile_append]
      have hne : ((trimEnd text).dropWhile isBlank).isEmpty = false := by
        rw [List.isEmpty_eq_false_iff, Ne, List.dropWhile_eq_nil_iff]
        exact fun h => hall (List.all_eq_true.2 h)
      simp [hne]
  unfold trim
  rcases hstart with hstart | ⟨hleft, hright⟩
  · rw [hstart, trimEnd_append_blanks _ hblanks]
  · rw [hleft, hright]

theorem prefix_trimEnd (text : List Char) : trimEnd text <+: text := by
  obtain ⟨blanks, htext, -⟩ := trimEnd_append text
  exact ⟨blanks, htext.symm⟩

theorem trim_blanks_append {blanks text : List Char} (h : blanks.all isBlank) :
    trim (blanks ++ text) = trim text := by
  have hdrop : trimStart (blanks ++ text) = trimStart text := by
    exact List.dropWhile_append_of_pos (List.all_eq_true.1 h)
  rw [trim, hdrop, trim]

/-! ## Blanks written differently -/

/-- The text does not begin with a blank. -/
def StartsWithInk (text : List Char) : Prop :=
  ∀ c, text.head? = some c → isBlank c = false

/-- The texts are equal but for how their blanks are written. Each run of blanks of the one stands
where one of the other stands, and line feeds stand in both or in none. -/
inductive Respaced : List Char → List Char → Prop
  | nil : Respaced [] []
  | ink {c : Char} {s t : List Char} (hc : isBlank c = false) (h : Respaced s t) :
      Respaced (c :: s) (c :: t)
  | blanks {a b s t : List Char} (ha : a ≠ []) (hb : b ≠ []) (hablank : a.all isBlank)
      (hbblank : b.all isBlank) (hfeed : '\n' ∈ a ↔ '\n' ∈ b) (hs : StartsWithInk s)
      (ht : StartsWithInk t) (h : Respaced s t) : Respaced (a ++ s) (b ++ t)

theorem startsWithInk_nil : StartsWithInk [] := by
  simp [StartsWithInk]

theorem startsWithInk_cons {c : Char} (hc : isBlank c = false) (text : List Char) :
    StartsWithInk (c :: text) := by
  simp [StartsWithInk, hc]

theorem StartsWithInk.trimEnd {text : List Char} (h : StartsWithInk text) :
    StartsWithInk (trimEnd text) := by
  cases text with
  | nil => exact startsWithInk_nil
  | cons c cs =>
    have hc := h c rfl
    rw [trimEnd_cons_of_ink hc]
    exact startsWithInk_cons hc _

theorem dropWhile_blanks_append {a s : List Char} (ha : a.all isBlank) (hs : StartsWithInk s) :
    (a ++ s).dropWhile isBlank = s := by
  rw [List.dropWhile_append_of_pos (List.all_eq_true.1 ha)]
  cases s with
  | nil => rfl
  | cons c s => rw [List.dropWhile_cons_of_neg (by simp [hs c rfl])]

namespace Respaced

/-- Blanks may be put in front of both texts. -/
theorem append_blanks {a b s t : List Char} (ha : a ≠ []) (hb : b ≠ []) (hablank : a.all isBlank)
    (hbblank : b.all isBlank) (hfeed : '\n' ∈ a ↔ '\n' ∈ b) (h : Respaced s t) :
    Respaced (a ++ s) (b ++ t) := by
  cases h with
  | nil => exact .blanks ha hb hablank hbblank hfeed startsWithInk_nil startsWithInk_nil .nil
  | ink hc h =>
    exact .blanks ha hb hablank hbblank hfeed (startsWithInk_cons hc _) (startsWithInk_cons hc _)
      (.ink hc h)
  | @blanks a' b' s t _ _ hablank' hbblank' hfeed' hs ht h =>
    rw [← List.append_assoc, ← List.append_assoc]
    refine .blanks (by simp [ha]) (by simp [hb]) ?_ ?_ ?_ hs ht h
    · rw [List.all_append, hablank, hablank', Bool.and_self]
    · rw [List.all_append, hbblank, hbblank', Bool.and_self]
    · rw [List.mem_append, List.mem_append, hfeed, hfeed']

theorem cons (c : Char) {s t : List Char} (h : Respaced s t) : Respaced (c :: s) (c :: t) := by
  cases hc : isBlank c with
  | false => exact .ink hc h
  | true =>
    exact append_blanks (a := [c]) (b := [c]) (by simp) (by simp) (by simp [hc]) (by simp [hc])
      Iff.rfl h

theorem append_left (front : List Char) {s t : List Char} (h : Respaced s t) :
    Respaced (front ++ s) (front ++ t) := by
  induction front with
  | nil => exact h
  | cons c front ih => exact cons c ih

theorem refl (text : List Char) : Respaced text text := by
  rw [← List.append_nil text]
  exact append_left text .nil

theorem symm {s t : List Char} (h : Respaced s t) : Respaced t s := by
  induction h with
  | nil => exact .nil
  | ink hc _ ih => exact .ink hc ih
  | blanks ha hb hablank hbblank hfeed hs ht _ ih =>
    exact .blanks hb ha hbblank hablank hfeed.symm ht hs ih

theorem eq_nil {t : List Char} (h : Respaced [] t) : t = [] := by
  generalize hs : ([] : List Char) = s at h
  cases h with
  | nil => rfl
  | ink => cases hs
  | blanks ha _ _ _ _ _ _ _ => exact absurd (List.append_eq_nil_iff.1 hs.symm).1 ha

theorem eq_nil_iff {s t : List Char} (h : Respaced s t) : s = [] ↔ t = [] := by
  constructor
  · rintro rfl
    exact h.eq_nil
  · rintro rfl
    exact h.symm.eq_nil

/-- A text that begins with ink is respaced only to texts that begin with the same ink. -/
theorem of_cons {c : Char} {s t : List Char} (hc : isBlank c = false)
    (h : Respaced (c :: s) t) : ∃ t', t = c :: t' ∧ Respaced s t' := by
  generalize hs : c :: s = text at h
  cases h with
  | nil => cases hs
  | ink _ h =>
    cases hs
    exact ⟨_, rfl, h⟩
  | @blanks a _ _ _ ha _ hablank _ _ _ _ _ =>
    cases a with
    | nil => exact absurd rfl ha
    | cons d a =>
      cases hs
      rw [List.all_cons, hc, Bool.false_and] at hablank
      cases hablank

/-- A word of ink at the start of the one text is at the start of the other. -/
theorem prefix_of_ink {word s t : List Char} (hword : word.all fun c => !isBlank c)
    (h : Respaced s t) (hs : word <+: s) : word <+: t := by
  induction word generalizing s t with
  | nil => exact List.nil_prefix
  | cons c word ih =>
    obtain ⟨rest, rfl⟩ := hs
    rw [List.all_cons, Bool.and_eq_true, Bool.not_eq_true'] at hword
    obtain ⟨t', rfl, h'⟩ := of_cons hword.1 h
    rw [List.cons_prefix_cons]
    exact ⟨rfl, ih hword.2 h' (List.prefix_append word rest)⟩

theorem ink_eq {s t : List Char} (h : Respaced s t) : Text.ink s = Text.ink t := by
  induction h with
  | nil => rfl
  | ink _ _ ih => rw [ink_cons, ih, ← ink_cons]
  | blanks _ _ hablank hbblank _ _ _ _ ih =>
    rw [ink_append, ink_append, ink_eq_nil hablank, ink_eq_nil hbblank, ih]

/-- What follows the blanks at the start. -/
theorem dropWhile_isBlank {s t : List Char} (h : Respaced s t) :
    Respaced (s.dropWhile isBlank) (t.dropWhile isBlank) := by
  cases h with
  | nil => exact .nil
  | ink hc h => simpa [List.dropWhile_cons, hc] using Respaced.ink hc h
  | blanks _ _ hablank hbblank _ hs ht h =>
    rwa [dropWhile_blanks_append hablank hs, dropWhile_blanks_append hbblank ht]

/-- Blanks stand at the start of both texts or of none. -/
theorem takeWhile_isBlank_eq_nil_iff {s t : List Char} (h : Respaced s t) :
    s.takeWhile isBlank = [] ↔ t.takeWhile isBlank = [] := by
  cases h with
  | nil => rfl
  | ink hc h => simp [hc]
  | @blanks a b s t ha hb hablank hbblank _ _ _ _ =>
    cases a with
    | nil => exact absurd rfl ha
    | cons c a =>
      cases b with
      | nil => exact absurd rfl hb
      | cons d b =>
        rw [List.all_cons, Bool.and_eq_true] at hablank hbblank
        simp [hablank.1, hbblank.1]

section charClass

variable {p : Char → Bool} (hp : ∀ c, isBlank c = true → p c = false) {s t : List Char}

include hp in
/-- The longest start of characters of a class without blanks, and what follows it. -/
theorem takeWhile_eq_and_dropWhile (h : Respaced s t) :
    s.takeWhile p = t.takeWhile p ∧ Respaced (s.dropWhile p) (t.dropWhile p) := by
  induction h with
  | nil => exact ⟨rfl, .nil⟩
  | @ink c s t hc h ih =>
    cases hpc : p c with
    | true => simpa [List.takeWhile_cons, List.dropWhile_cons, hpc] using ih
    | false => simpa [List.takeWhile_cons, List.dropWhile_cons, hpc] using Respaced.ink hc h
  | @blanks a b s t ha hb hablank hbblank hfeed hs ht h _ =>
    have hwhole := Respaced.blanks ha hb hablank hbblank hfeed hs ht h
    cases a with
    | nil => exact absurd rfl ha
    | cons c a =>
      cases b with
      | nil => exact absurd rfl hb
      | cons d b =>
        rw [List.all_cons, Bool.and_eq_true] at hablank hbblank
        have hpc := hp c hablank.1
        have hpd := hp d hbblank.1
        simpa [List.takeWhile_cons, List.dropWhile_cons, hpc, hpd] using hwhole

end charClass

theorem mem_feed_iff {s t : List Char} (h : Respaced s t) : '\n' ∈ s ↔ '\n' ∈ t := by
  induction h with
  | nil => rfl
  | ink _ _ ih => rw [List.mem_cons, List.mem_cons, ih]
  | blanks _ _ _ _ hfeed _ _ _ ih => rw [List.mem_append, List.mem_append, hfeed, ih]

/-- The texts end in the same ink, if in ink at all. -/
theorem getLast?_eq_some_iff {c : Char} (hc : isBlank c = false) {s t : List Char}
    (h : Respaced s t) : s.getLast? = some c ↔ t.getLast? = some c := by
  induction h with
  | nil => rfl
  | @ink d s t _ h ih =>
    by_cases hs : s = []
    · rw [hs, h.eq_nil_iff.1 hs]
    · have ht : t ≠ [] := fun ht => hs (h.eq_nil_iff.2 ht)
      rw [List.getLast?_cons_of_ne_nil hs, List.getLast?_cons_of_ne_nil ht]
      exact ih
  | @blanks a b s t ha hb hablank hbblank _ _ _ h ih =>
    by_cases hs : s = []
    · rw [hs, h.eq_nil_iff.1 hs, List.append_nil, List.append_nil]
      have hnot : ∀ l : List Char, l.all isBlank → l.getLast? ≠ some c := by
        intro l hl hlast
        have := List.all_eq_true.1 hl c (List.mem_of_getLast? hlast)
        rw [hc] at this
        cases this
      exact iff_of_false (hnot a hablank) (hnot b hbblank)
    · have ht : t ≠ [] := fun ht => hs (h.eq_nil_iff.2 ht)
      rw [List.getLast?_append_of_ne_nil a hs, List.getLast?_append_of_ne_nil b ht]
      exact ih

theorem trimEnd {s t : List Char} (h : Respaced s t) : Respaced (trimEnd s) (trimEnd t) := by
  induction h with
  | nil => exact .nil
  | ink hc _ ih =>
    rw [trimEnd_cons_of_ink hc, trimEnd_cons_of_ink hc]
    exact .ink hc ih
  | @blanks a b s t ha hb hablank hbblank hfeed hs ht _ ih =>
    by_cases hnil : Text.trimEnd s = []
    · rw [trimEnd_blanks_append_of_nil hablank hnil,
        trimEnd_blanks_append_of_nil hbblank (ih.eq_nil_iff.1 hnil)]
      exact .nil
    · rw [trimEnd_blanks_append hablank hnil,
        trimEnd_blanks_append hbblank fun h => hnil (ih.eq_nil_iff.2 h)]
      exact .blanks ha hb hablank hbblank hfeed hs.trimEnd ht.trimEnd ih

theorem trim {s t : List Char} (h : Respaced s t) : Respaced (trim s) (trim t) :=
  h.dropWhile_isBlank.trimEnd

end Respaced

end Stencil.Text
