import Stencil.Scopes
import Mathlib.Data.List.Infix

/-!
# Moves over scopes

Moves bind and read names and open and close scopes. Whatever they do, the base scope stays and only
gets bindings (`after_base`). Moves that close no scope which was open before them leave the scopes
below alone (`after_frame`), and a name means the innermost of the bindings they made that are still
there (`means_after`).
-/

namespace Stencil

namespace Scopes

/-! ## Moves -/

/-- What can be done to scopes one at a time. -/
inductive Move where
  | set (name : String) (value : Value)
  | get (name : String)
  | push
  | pop

namespace Move

/-- Whether a scope is opened. -/
def isPush : Move → Bool
  | push => true
  | _ => false

/-- Whether the innermost scope is closed. -/
def isPop : Move → Bool
  | pop => true
  | _ => false

/-- The name that is bound, with its value. -/
def binding? : Move → Option (String × Value)
  | set name value => some (name, value)
  | _ => none

end Move

/-- The scopes after a move. -/
def apply (scopes : Scopes) : Move → Scopes
  | .set name value => scopes.set name value
  | .get _ => scopes
  | .push => scopes.push
  | .pop => scopes.pop

/-- The scopes after moves. -/
def after (scopes : Scopes) (moves : List Move) : Scopes :=
  moves.foldl apply scopes

@[simp] theorem after_nil (scopes : Scopes) : scopes.after [] = scopes := rfl

@[simp] theorem after_cons (scopes : Scopes) (move : Move) (moves : List Move) :
    scopes.after (move :: moves) = (scopes.apply move).after moves := rfl

@[simp] theorem after_append (scopes : Scopes) (moves rest : List Move) :
    scopes.after (moves ++ rest) = (scopes.after moves).after rest :=
  List.foldl_append

/-- All scopes, the innermost first. -/
def toList (scopes : Scopes) : List Scope :=
  scopes.inner ++ [scopes.base]

/-- The base scope is only ever bound in: no move closes it, and what it gets are bindings of the
moves, in their order. -/
theorem after_base (scopes : Scopes) (moves : List Move) :
    ∃ bindings, bindings.Sublist (moves.filterMap Move.binding?) ∧
      (scopes.after moves).base = scopes.base.insertAll bindings := by
  induction moves generalizing scopes with
  | nil => exact ⟨[], .slnil, rfl⟩
  | cons move moves ih =>
    obtain ⟨bindings, hsublist, hbase⟩ := ih (scopes.apply move)
    cases move with
    | set name value =>
      rcases scopes with ⟨base, _ | ⟨scope, outer⟩⟩
      · exact ⟨(name, value) :: bindings, hsublist.cons_cons _, hbase⟩
      · exact ⟨bindings, hsublist.cons _, hbase⟩
    | get name => exact ⟨bindings, hsublist, hbase⟩
    | push => exact ⟨bindings, hsublist, hbase⟩
    | pop => exact ⟨bindings, hsublist, hbase⟩

/-! ## Scopes that stay open -/

/-- How many scopes are opened. -/
def pushes (moves : List Move) : Nat :=
  moves.countP Move.isPush

/-- How often a scope is closed. -/
def pops (moves : List Move) : Nat :=
  moves.countP Move.isPop

@[simp] theorem pushes_append (moves rest : List Move) :
    pushes (moves ++ rest) = pushes moves + pushes rest :=
  List.countP_append

@[simp] theorem pops_append (moves rest : List Move) :
    pops (moves ++ rest) = pops moves + pops rest :=
  List.countP_append

@[simp] theorem pushes_cons (move : Move) (moves : List Move) :
    pushes (move :: moves) = pushes moves + if move.isPush then 1 else 0 :=
  List.countP_cons

@[simp] theorem pops_cons (move : Move) (moves : List Move) :
    pops (move :: moves) = pops moves + if move.isPop then 1 else 0 :=
  List.countP_cons

@[simp] theorem pushes_nil : pushes [] = 0 := rfl

@[simp] theorem pops_nil : pops [] = 0 := rfl

/-- At no time do the pops so far outnumber the pushes so far by more than the scopes to spare. -/
def StaysOpen (spare : Nat) (moves : List Move) : Prop :=
  ∀ front, front <+: moves → pops front ≤ pushes front + spare

instance (spare : Nat) (moves : List Move) : Decidable (StaysOpen spare moves) :=
  decidable_of_iff (∀ front ∈ moves.inits, pops front ≤ pushes front + spare)
    (by simp only [StaysOpen, List.mem_inits])

/-- Pops never outnumber the pushes before them, and in the end there are as many of both. -/
structure Balanced (moves : List Move) : Prop where
  staysOpen : StaysOpen 0 moves
  pops_eq : pops moves = pushes moves

instance (moves : List Move) : Decidable (Balanced moves) :=
  decidable_of_iff (StaysOpen 0 moves ∧ pops moves = pushes moves)
    ⟨fun h => ⟨h.1, h.2⟩, fun h => ⟨h.1, h.2⟩⟩

theorem StaysOpen.pops_le {spare : Nat} {moves : List Move} (h : StaysOpen spare moves) :
    pops moves ≤ pushes moves + spare :=
  h moves List.prefix_rfl

theorem staysOpen_nil (spare : Nat) : StaysOpen spare [] := by
  intro front hfront
  simp [List.prefix_nil.1 hfront]

theorem StaysOpen.mono {spare more : Nat} {moves : List Move} (h : StaysOpen spare moves)
    (hle : spare ≤ more) : StaysOpen more moves :=
  fun front hfront => (h front hfront).trans (Nat.add_le_add_left hle _)

theorem staysOpen_append {spare : Nat} {moves rest : List Move} :
    StaysOpen spare (moves ++ rest) ↔
      StaysOpen spare moves ∧ StaysOpen (pushes moves + spare - pops moves) rest := by
  constructor
  · intro h
    refine ⟨fun front hfront => h front (hfront.trans (List.prefix_append _ _)), ?_⟩
    intro front hfront
    have hle := h (moves ++ front) ((List.prefix_append_right_inj moves).2 hfront)
    rw [pushes_append, pops_append] at hle
    omega
  · rintro ⟨hmoves, hrest⟩ front hfront
    rcases List.prefix_or_prefix_of_prefix hfront (List.prefix_append moves rest) with
      hprefix | ⟨tail, rfl⟩
    · exact hmoves front hprefix
    · have hle := hrest tail ((List.prefix_append_right_inj moves).1 hfront)
      have hmoves := hmoves.pops_le
      rw [pushes_append, pops_append]
      omega

theorem staysOpen_cons {spare : Nat} {move : Move} {moves : List Move} :
    StaysOpen spare (move :: moves) ↔
      StaysOpen spare [move] ∧ StaysOpen (pushes [move] + spare - pops [move]) moves :=
  @staysOpen_append spare [move] moves

theorem staysOpen_singleton {spare : Nat} {move : Move} :
    StaysOpen spare [move] ↔ (move.isPop → 1 ≤ spare) := by
  constructor
  · intro h hpop
    have hle := h.pops_le
    cases move with
    | pop => simpa [Move.isPush, Move.isPop] using hle
    | _ => cases hpop
  · intro h front hfront
    rcases List.prefix_cons_iff.1 hfront with rfl | ⟨rest, rfl, hrest⟩
    · exact Nat.zero_le _
    · rw [List.prefix_nil.1 hrest]
      cases move with
      | pop => simpa [Move.isPush, Move.isPop] using h rfl
      | _ => simp [Move.isPop]

/-- How many more scopes are open after moves than before them. -/
def level (moves : List Move) : Int :=
  pushes moves - pops moves

namespace Balanced

theorem nil : Balanced [] := ⟨staysOpen_nil 0, rfl⟩

theorem append {moves rest : List Move} (hmoves : Balanced moves) (hrest : Balanced rest) :
    Balanced (moves ++ rest) where
  staysOpen := by
    rw [staysOpen_append, hmoves.pops_eq, Nat.add_zero, Nat.sub_self]
    exact ⟨hmoves.staysOpen, hrest.staysOpen⟩
  pops_eq := by rw [pops_append, pushes_append, hmoves.pops_eq, hrest.pops_eq]

theorem singleton {move : Move} (hpush : move.isPush = false) (hpop : move.isPop = false) :
    Balanced [move] where
  staysOpen := staysOpen_singleton.2 (by simp [hpop])
  pops_eq := by simp [hpush, hpop]

/-- Moves between the opening and the closing of a scope. -/
theorem wrap {moves : List Move} (h : Balanced moves) :
    Balanced (.push :: (moves ++ [.pop])) where
  staysOpen := by
    have hpops := h.pops_eq
    rw [staysOpen_cons, staysOpen_append]
    refine ⟨staysOpen_singleton.2 nofun, h.staysOpen.mono (Nat.zero_le _), ?_⟩
    refine staysOpen_singleton.2 fun _ => ?_
    simp [Move.isPush, Move.isPop, hpops]
  pops_eq := by simp [Move.isPush, Move.isPop, h.pops_eq]

/-- Balanced moves make no difference to whether the others stay open. -/
theorem staysOpen_append_iff {moves rest : List Move} (h : Balanced rest) {spare : Nat} :
    StaysOpen spare (moves ++ rest) ↔ StaysOpen spare moves := by
  rw [staysOpen_append]
  exact and_iff_left (h.staysOpen.mono (Nat.zero_le _))

/-- Moves are balanced as soon as they close scopes no earlier than balanced ones, and as many. -/
theorem of_level {moves other : List Move} (h : Balanced other)
    (hopen : StaysOpen 0 moves ↔ StaysOpen 0 other) (hlevel : level moves = level other) :
    Balanced moves where
  staysOpen := hopen.2 h.staysOpen
  pops_eq := by
    have hpops := h.pops_eq
    simp only [level] at hlevel
    omega

end Balanced

/-- Moves that stay open leave the scopes below those that they may close. -/
theorem after_frame (base : Scope) (own outer : List Scope) {spare : Nat} {moves : List Move}
    (h : StaysOpen spare moves) (hown : own.length = spare + 1) :
    ∃ own', after ⟨base, own ++ outer⟩ moves = ⟨base, own' ++ outer⟩ ∧
      own'.length + pops moves = pushes moves + spare + 1 := by
  induction moves generalizing spare own with
  | nil => exact ⟨own, rfl, by simpa using hown⟩
  | cons move moves ih =>
    obtain ⟨hmove, hmoves⟩ := staysOpen_cons.1 h
    obtain _ | ⟨scope, own⟩ := own
    · cases hown
    cases move with
    | set name value =>
      obtain ⟨own', hafter, hlength⟩ := ih (scope.insert name value :: own) hmoves
        (by simpa [Move.isPush, Move.isPop] using hown)
      exact ⟨own', hafter, by simpa [Move.isPush, Move.isPop] using hlength⟩
    | get name =>
      obtain ⟨own', hafter, hlength⟩ := ih (scope :: own) hmoves
        (by simpa [Move.isPush, Move.isPop] using hown)
      exact ⟨own', hafter, by simpa [Move.isPush, Move.isPop] using hlength⟩
    | push =>
      obtain ⟨own', hafter, hlength⟩ := ih (.empty :: scope :: own) hmoves
        (by simp [Move.isPush, Move.isPop] at hown ⊢; omega)
      refine ⟨own', hafter, ?_⟩
      simp [Move.isPush, Move.isPop] at hlength ⊢
      omega
    | pop =>
      have hspare : 0 < spare := staysOpen_singleton.1 hmove rfl
      obtain ⟨own', hafter, hlength⟩ := ih own hmoves
        (by simp [Move.isPush, Move.isPop] at hown ⊢; omega)
      refine ⟨own', hafter, ?_⟩
      simp [Move.isPush, Move.isPop] at hlength ⊢
      omega

/-- Balanced moves in a new scope leave the scopes as they were once that scope is closed. -/
theorem Balanced.after_push_pop {moves : List Move} (h : Balanced moves) (scopes : Scopes) :
    (scopes.push.after moves).pop = scopes := by
  obtain ⟨own, hafter, hlength⟩ :=
    after_frame scopes.base [.empty] scopes.inner h.staysOpen rfl
  rw [h.pops_eq] at hlength
  obtain ⟨scope, rfl⟩ := List.length_eq_one_iff.1 (show own.length = 1 by omega)
  change pop (after ⟨scopes.base, [.empty] ++ scopes.inner⟩ moves) = scopes
  rw [hafter]
  rfl

/-- Where more scopes were opened than closed, one of them was opened last of those still open. -/
theorem exists_last_push {moves : List Move} (h : StaysOpen 0 moves)
    (hlt : pops moves < pushes moves) :
    ∃ before between, moves = before ++ .push :: between ∧ Balanced between := by
  induction hlength : moves.length using Nat.strong_induction_on generalizing moves with
  | _ length ih =>
    subst hlength
    obtain rfl | ⟨init, move, rfl⟩ := List.eq_nil_or_concat' moves
    · cases hlt
    have hinit := (staysOpen_append.1 h).1
    by_cases hpush : move.isPush
    · cases move with
      | push => exact ⟨init, [], rfl, .nil⟩
      | _ => cases hpush
    by_cases hpop : move.isPop
    · -- What the last move closes was opened after what is sought.
      have hless : pops init + 1 < pushes init := by simpa [hpush, hpop] using hlt
      obtain ⟨before, between, rfl, hbetween⟩ := ih init.length (by simp) hinit (by omega) rfl
      have hfewer : pops before < pushes before := by
        simpa [Move.isPush, Move.isPop, hbetween.pops_eq, ← Nat.add_assoc] using hless
      obtain ⟨first, second, rfl, hsecond⟩ :=
        ih before.length (by simp) (staysOpen_append.1 hinit).1 hfewer rfl
      have hmove : move = .pop := by
        cases move with
        | pop => rfl
        | _ => cases hpop
      exact ⟨first, second ++ .push :: (between ++ [.pop]), by simp [hmove],
        hsecond.append hbetween.wrap⟩
    · have hless : pops init < pushes init := by simpa [hpush, hpop] using hlt
      obtain ⟨before, between, rfl, hbetween⟩ := ih init.length (by simp) hinit hless rfl
      exact ⟨before, between ++ [move], by simp,
        hbetween.append (.singleton (by simpa using hpush) (by simpa using hpop))⟩

/-! ## What a name means -/

/-- The moves bind the name after `before`, and the scope in which they do is open ever since. -/
structure Keeps (moves : List Move) (name : String) (value : Value) (before rest : List Move) :
    Prop where
  eq : moves = before ++ .set name value :: rest
  staysOpen : StaysOpen 0 rest

/-- Of the bindings of the name that are still there this one is in the innermost scope, and it is
the last one made there. -/
structure Innermost (moves : List Move) (name : String) (value : Value)
    (before rest : List Move) : Prop extends Keeps moves name value before rest where
  le : ∀ {value' before' rest'}, Keeps moves name value' before' rest' →
    level before' < level before ∨
      level before' = level before ∧ before'.length ≤ before.length

/-- What a name means after moves in a new scope: the innermost of the bindings they made, and what
it meant before if none of them is still there. -/
inductive Means (scopes : Scopes) (moves : List Move) (name : String) : Option Value → Prop where
  | bound {value before rest} :
      Innermost moves name value before rest → Means scopes moves name (some value)
  | outer : (∀ value before rest, ¬ Keeps moves name value before rest) →
      Means scopes moves name (scopes.get? name)

/-- A name means one thing. -/
theorem Means.unique {scopes : Scopes} {moves : List Move} {name : String}
    {answer answer' : Option Value} (h : Means scopes moves name answer)
    (h' : Means scopes moves name answer') : answer = answer' := by
  cases h with
  | bound hinnermost =>
    cases h' with
    | bound hinnermost' =>
      have hle := hinnermost.le hinnermost'.toKeeps
      have hle' := hinnermost'.le hinnermost.toKeeps
      have heq := hinnermost.eq.symm.trans hinnermost'.eq
      obtain ⟨-, hcons⟩ := List.append_inj heq (by omega)
      cases hcons
      rfl
    | outer hnone => exact absurd hinnermost.toKeeps (hnone _ _ _)
  | outer hnone =>
    cases h' with
    | bound hinnermost => exact absurd hinnermost.toKeeps (hnone _ _ _)
    | outer => rfl

/-- A binding that moves make is their last move, or they make it before that. -/
theorem Keeps.of_concat {moves before rest : List Move} {last : Move} {name : String}
    {value : Value} (h : Keeps (moves ++ [last]) name value before rest) :
    before = moves ∧ last = .set name value ∧ rest = [] ∨
      ∃ middle, rest = middle ++ [last] ∧ moves = before ++ .set name value :: middle := by
  rcases List.eq_nil_or_concat' rest with rfl | ⟨middle, move, rfl⟩
  · obtain ⟨hmoves, hlast⟩ := List.append_inj' h.eq rfl
    exact .inl ⟨hmoves.symm, List.head_eq_of_cons_eq hlast, rfl⟩
  · have heq : moves ++ [last] = (before ++ .set name value :: middle) ++ [move] := by
      simpa using h.eq
    obtain ⟨hmoves, hlast⟩ := List.append_inj' heq rfl
    cases hlast
    exact .inr ⟨middle, rfl, hmoves⟩

/-- The moves make no difference to what the name means after them. -/
structure Passes (name : String) (moves : List Move) : Prop where
  staysOpen_iff : ∀ before, StaysOpen 0 (before ++ moves) ↔ StaysOpen 0 before
  not_keeps : ∀ value before rest, ¬ Keeps moves name value before rest

namespace Passes

variable {name : String} {moves rest : List Move}

theorem keeps_append_iff (h : Passes name rest) {value : Value} {before tail : List Move} :
    Keeps (moves ++ rest) name value before tail ↔
      ∃ middle, tail = middle ++ rest ∧ Keeps moves name value before middle := by
  constructor
  · rintro ⟨heq, htail⟩
    rcases List.append_eq_append_iff.1 heq with ⟨front, rfl, hrest⟩ | ⟨front, hmoves, htail'⟩
    · exact absurd ⟨hrest, htail⟩ (h.not_keeps value front tail)
    · rcases List.cons_eq_append_iff.1 htail' with ⟨rfl, hrest⟩ | ⟨middle, rfl, rfl⟩
      · exact absurd ⟨hrest, htail⟩ (h.not_keeps value [] tail)
      · exact ⟨middle, rfl, hmoves, (h.staysOpen_iff middle).1 htail⟩
  · rintro ⟨middle, rfl, rfl, hmiddle⟩
    exact ⟨by simp, (h.staysOpen_iff middle).2 hmiddle⟩

theorem means_append (h : Passes name rest) {scopes : Scopes} {answer : Option Value}
    (hmeans : Means scopes moves name answer) : Means scopes (moves ++ rest) name answer := by
  cases hmeans with
  | bound hinnermost =>
    refine .bound ⟨h.keeps_append_iff.2 ⟨_, rfl, hinnermost.toKeeps⟩, fun hkeeps => ?_⟩
    obtain ⟨middle, -, hkeeps⟩ := h.keeps_append_iff.1 hkeeps
    exact hinnermost.le hkeeps
  | outer hnone =>
    refine .outer fun value before tail hkeeps => ?_
    obtain ⟨middle, -, hkeeps⟩ := h.keeps_append_iff.1 hkeeps
    exact hnone value before middle hkeeps

theorem singleton {move : Move} (hpop : move.isPop = false)
    (hset : ∀ value, move ≠ .set name value) : Passes name [move] where
  staysOpen_iff before := by
    rw [staysOpen_append, staysOpen_singleton]
    simp [hpop]
  not_keeps := by
    intro value before rest hkeeps
    have hkeeps : Keeps ([] ++ [move]) name value before rest := hkeeps
    rcases hkeeps.of_concat with ⟨-, hmove, -⟩ | ⟨middle, -, hnil⟩
    · exact hset value hmove
    · simp at hnil

/-- A scope that is closed takes the bindings made since it was opened with it. -/
theorem wrap (h : Balanced moves) : Passes name (.push :: (moves ++ [.pop])) where
  staysOpen_iff before := h.wrap.staysOpen_append_iff
  not_keeps := by
    intro value before rest hkeeps
    have hkeeps : Keeps ((.push :: moves) ++ [.pop]) name value before rest := hkeeps
    rcases hkeeps.of_concat with ⟨-, hpop, -⟩ | ⟨middle, rfl, hmoves⟩
    · cases hpop
    obtain ⟨front, rfl, rfl⟩ : ∃ front, before = .push :: front ∧
        moves = front ++ .set name value :: middle := by
      rcases List.cons_eq_append_iff.1 hmoves with ⟨rfl, hpush⟩ | hmoves
      · cases (List.cons.inj hpush).1
      · exact hmoves
    have hfront := (staysOpen_append.1 h.staysOpen).1.pops_le
    have hle := hkeeps.staysOpen.pops_le
    have hpops := h.pops_eq
    simp [Move.isPush, Move.isPop] at hle hpops
    omega

end Passes

/-- A name that was just bound has this value. -/
theorem means_set (scopes : Scopes) (moves : List Move) (name : String) (value : Value) :
    Means scopes (moves ++ [.set name value]) name (some value) := by
  have hkeeps : Keeps (moves ++ [.set name value]) name value moves [] := ⟨rfl, staysOpen_nil 0⟩
  refine .bound ⟨hkeeps, ?_⟩
  intro value' before rest hkeeps'
  rcases hkeeps'.of_concat with ⟨rfl, -, -⟩ | ⟨middle, rfl, rfl⟩
  · exact .inr ⟨rfl, Nat.le_refl _⟩
  · have hle := hkeeps'.staysOpen.pops_le
    simp [level, Move.isPush, Move.isPop] at hle ⊢
    omega

/-- The scopes after moves that stay open in a new scope say what a name means after them. -/
theorem means_after (scopes : Scopes) {moves : List Move} (h : StaysOpen 0 moves)
    (name : String) : Means scopes moves name ((scopes.push.after moves).get? name) := by
  -- The induction is on the length, as what a pop closes is left out together with its push.
  induction hlength : moves.length using Nat.strong_induction_on generalizing moves with
  | _ length ih =>
    subst hlength
    obtain rfl | ⟨init, move, rfl⟩ := List.eq_nil_or_concat' moves
    · rw [after_nil, get?_push]
      exact .outer fun value before rest hkeeps => by simpa using hkeeps.eq
    obtain ⟨hinit, hmove⟩ := staysOpen_append.1 h
    have hmeans := ih init.length (by simp) hinit rfl
    rw [after_append, after_cons, after_nil]
    cases move with
    | set other value =>
      by_cases hname : name = other
      · subst hname
        rw [apply, get?_set_self]
        exact means_set scopes init name value
      · rw [apply, get?_set_of_ne _ _ hname]
        refine (Passes.singleton rfl fun value' heq => hname ?_).means_append hmeans
        cases heq
        rfl
    | get other =>
      have hpasses : Passes name [.get other] := .singleton rfl nofun
      exact hpasses.means_append hmeans
    | push =>
      have hpasses : Passes name [.push] := .singleton rfl nofun
      rw [apply, get?_push]
      exact hpasses.means_append hmeans
    | pop =>
      have hlt := staysOpen_singleton.1 hmove rfl
      obtain ⟨before, between, rfl, hbetween⟩ := exists_last_push hinit (by omega)
      have hbefore := ih before.length (by simp) (staysOpen_append.1 hinit).1 rfl
      rw [after_append, after_cons, apply, apply, hbetween.after_push_pop, List.append_assoc]
      exact (Passes.wrap hbetween).means_append hbefore

theorem means_iff (scopes : Scopes) {moves : List Move} (h : StaysOpen 0 moves) (name : String)
    {answer : Option Value} :
    Means scopes moves name answer ↔ (scopes.push.after moves).get? name = answer := by
  have hmeans := means_after scopes h name
  constructor
  · exact hmeans.unique
  · rintro rfl
    exact hmeans

end Scopes

end Stencil
