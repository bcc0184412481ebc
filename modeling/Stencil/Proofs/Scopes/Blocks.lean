import Mathlib.Data.List.Forall2
import Stencil.Proofs.Scopes.Moves

/-!
# Programs over scopes

A program takes moves over scopes, and runs blocks in scopes of their own, which may hold blocks in
turn. If each block closes as many scopes as it opens, and none before it opened one, then it leaves
the scopes as it found them, and what is read in it is the innermost of the bindings made since it
began that are still there (`runSteps_blocks`).
-/

namespace Stencil

namespace Scopes

/-- A step of a program: one move, or a block within a scope of its own. -/
inductive Step where
  | move (move : Move)
  | within (block : List Step)

/-- What a move reads. -/
def read (scopes : Scopes) : Move → List (Option Value)
  | .get name => [scopes.get? name]
  | .set _ _ | .push | .pop => []

mutual

/-- Takes a step. What is read on the way comes first, in order. -/
def Step.run : Step → Scopes → List (Option Value) × Scopes
  | .move move, scopes => (scopes.read move, scopes.apply move)
  | .within block, scopes => scopes.within (runSteps block)

/-- Takes one step after the other. -/
def runSteps : List Step → Scopes → List (Option Value) × Scopes
  | [], scopes => ([], scopes)
  | step :: rest, scopes =>
    let (first, between) := step.run scopes
    let (others, last) := runSteps rest between
    (first ++ others, last)

end

mutual

/-- The moves of a step. The scope of a block is opened before it and closed after it. -/
def Step.moves : Step → List Move
  | .move move => [move]
  | .within block => .push :: (movesOf block ++ [.pop])

/-- The moves of a program, those of its blocks included. -/
def movesOf : List Step → List Move
  | [] => []
  | step :: rest => step.moves ++ movesOf rest

end

/-- The moves of a block apart from those of the blocks in it. -/
def ownMoves (block : List Step) : List Move :=
  block.filterMap fun
    | .move move => some move
    | .within _ => none

/-- The block is in the program, at whatever depth. -/
inductive Encloses : List Step → List Step → Prop where
  | here {program block} : .within block ∈ program → Encloses program block
  | deeper {program outer block} :
      .within outer ∈ program → Encloses outer block → Encloses program block

/-- Each block of the program, at whatever depth, closes the scopes it opens and no others. -/
def Tidy (program : List Step) : Prop :=
  ∀ block, Encloses program block → Balanced (ownMoves block)

/-- The moves before each read, with the name that is read. -/
def readsAfter (before : List Move) : List Move → List (List Move × String)
  | [] => []
  | .get name :: rest => (before, name) :: readsAfter (before ++ [.get name]) rest
  | move :: rest => readsAfter (before ++ [move]) rest

/-- Programs are built from moves and from blocks that are programs. -/
theorem program_induction {motive : List Step → Prop} (nil : motive [])
    (move : ∀ move rest, motive rest → motive (.move move :: rest))
    (within : ∀ block rest, motive block → motive rest → motive (.within block :: rest)) :
    ∀ program, motive program
  | [] => nil
  | .move first :: rest => move first rest (program_induction nil move within rest)
  | .within block :: rest =>
    within block rest (program_induction nil move within block)
      (program_induction nil move within rest)

theorem Encloses.mono {program other block : List Step} (h : Encloses program block)
    (hsubset : program ⊆ other) : Encloses other block := by
  cases h with
  | here hmem => exact .here (hsubset hmem)
  | deeper hmem hinner => exact .deeper (hsubset hmem) hinner

theorem Encloses.trans {program outer block : List Step} (h : Encloses program outer)
    (hblock : Encloses outer block) : Encloses program block := by
  induction h with
  | here hmem => exact .deeper hmem hblock
  | deeper hmem _ ih => exact .deeper hmem (ih hblock)

namespace Tidy

theorem of_encloses {program block : List Step} (h : Tidy program)
    (hblock : Encloses program block) : Tidy block :=
  fun inner hinner => h inner (hblock.trans hinner)

theorem nil : Tidy [] := by
  intro block hblock
  cases hblock <;> contradiction

theorem cons_move_iff {move : Move} {rest : List Step} :
    Tidy (.move move :: rest) ↔ Tidy rest := by
  constructor
  · exact fun h block hblock => h block (hblock.mono (List.subset_cons_self _ _))
  · intro h block hblock
    cases hblock with
    | here hmem => exact h block (.here (by simpa using hmem))
    | deeper hmem hinner => exact h block (.deeper (by simpa using hmem) hinner)

theorem cons_within_iff {block rest : List Step} :
    Tidy (.within block :: rest) ↔ Balanced (ownMoves block) ∧ Tidy block ∧ Tidy rest := by
  constructor
  · intro h
    have hblock : Encloses (.within block :: rest) block := .here List.mem_cons_self
    exact ⟨h block hblock, h.of_encloses hblock,
      fun other hother => h other (hother.mono (List.subset_cons_self _ _))⟩
  · rintro ⟨hbalanced, hblock, hrest⟩ other hother
    cases hother with
    | here hmem =>
      rcases List.mem_cons.1 hmem with heq | hmem
      · cases heq
        exact hbalanced
      · exact hrest other (.here hmem)
    | deeper hmem hinner =>
      rcases List.mem_cons.1 hmem with heq | hmem
      · cases heq
        exact hblock other hinner
      · exact hrest other (.deeper hmem hinner)

/-- The blocks of a program neither open nor close scopes that the rest of it could notice. -/
theorem staysOpen_movesOf {program : List Step} (h : Tidy program) :
    (∀ spare, StaysOpen spare (movesOf program) ↔ StaysOpen spare (ownMoves program)) ∧
      level (movesOf program) = level (ownMoves program) := by
  induction program using program_induction with
  | nil => exact ⟨fun _ => .rfl, rfl⟩
  | move move rest ih =>
    obtain ⟨hopen, hlevel⟩ := ih (cons_move_iff.1 h)
    have hmoves : movesOf (.move move :: rest) = move :: movesOf rest := rfl
    have hown : ownMoves (.move move :: rest) = move :: ownMoves rest := rfl
    rw [hmoves, hown]
    refine ⟨fun spare => ?_, ?_⟩
    · rw [staysOpen_cons, hopen, ← staysOpen_cons]
    · simp only [level, pushes_cons, pops_cons] at hlevel ⊢
      omega
  | within block rest ihblock ih =>
    obtain ⟨hbalanced, hblock, hrest⟩ := cons_within_iff.1 h
    obtain ⟨hopen, hlevel⟩ := ih hrest
    obtain ⟨hopenBlock, hlevelBlock⟩ := ihblock hblock
    have hwrap := (hbalanced.of_level (hopenBlock 0) hlevelBlock).wrap
    have hmoves : movesOf (.within block :: rest) =
        (.push :: (movesOf block ++ [.pop])) ++ movesOf rest := rfl
    have hown : ownMoves (.within block :: rest) = ownMoves rest := rfl
    rw [hmoves, hown]
    refine ⟨fun spare => ?_, ?_⟩
    · rw [staysOpen_append, hwrap.pops_eq, Nat.add_sub_cancel_left, hopen]
      exact and_iff_right (hwrap.staysOpen.mono (Nat.zero_le _))
    · rw [← hlevel, level, level, pushes_append, pops_append, hwrap.pops_eq]
      omega

theorem balanced_movesOf {program block : List Step} (h : Tidy program)
    (hblock : Encloses program block) : Balanced (movesOf block) := by
  obtain ⟨hopen, hlevel⟩ := (h.of_encloses hblock).staysOpen_movesOf
  exact (h block hblock).of_level (hopen 0) hlevel

end Tidy

theorem readsAfter_append (before moves rest : List Move) :
    readsAfter before (moves ++ rest) =
      readsAfter before moves ++ readsAfter (before ++ moves) rest := by
  induction moves generalizing before with
  | nil => simp [readsAfter]
  | cons move moves ih => cases move <;> simp [readsAfter, ih]

/-- What is read are the names that moves get, each after the moves before it. -/
theorem exists_of_mem_readsAfter {before moves : List Move} {read : List Move × String}
    (h : read ∈ readsAfter before moves) :
    ∃ front rest, moves = front ++ .get read.2 :: rest ∧ read.1 = before ++ front := by
  induction moves generalizing before with
  | nil => cases h
  | cons move moves ih =>
    have hlater (hread : read ∈ readsAfter (before ++ [move]) moves) :
        ∃ front rest, move :: moves = front ++ .get read.2 :: rest ∧ read.1 = before ++ front := by
      obtain ⟨front, rest, rfl, heq⟩ := ih hread
      exact ⟨move :: front, rest, rfl, by simpa using heq⟩
    cases move with
    | get name =>
      rcases List.mem_cons.1 h with rfl | hread
      · exact ⟨[], moves, rfl, (List.append_nil _).symm⟩
      · exact hlater hread
    | _ => exact hlater h

/-- What reads give, each after the moves before it. -/
def answers (scopes : Scopes) (reads : List (List Move × String)) : List (Option Value) :=
  reads.map fun read => (scopes.after read.1).get? read.2

theorem run_within {block : List Step} {scopes : Scopes} {results : List (Option Value)}
    {last : Scopes} (h : runSteps block scopes.push = (results, last)) :
    (Step.within block).run scopes = (results, last.pop) := by
  rw [Step.run, within, h]

theorem runSteps_cons {step : Step} {rest : List Step} {scopes between last : Scopes}
    {first others : List (Option Value)} (hstep : step.run scopes = (first, between))
    (hrest : runSteps rest between = (others, last)) :
    runSteps (step :: rest) scopes = (first ++ others, last) := by
  rw [runSteps, hstep]
  simp only [hrest]

/-- A run takes the moves of the program, and what it reads is what the names mean to the scopes
after the moves before. -/
theorem runSteps_after (program : List Step) (scopes : Scopes) (before : List Move) :
    runSteps program (scopes.after before) =
      (scopes.answers (readsAfter before (movesOf program)),
        scopes.after (before ++ movesOf program)) := by
  induction program using program_induction generalizing before with
  | nil => simp [runSteps, movesOf, readsAfter, answers]
  | move move rest ih =>
    have hstep : (Step.move move).run (scopes.after before) =
        (scopes.answers (readsAfter before [move]), scopes.after (before ++ [move])) := by
      rw [after_append]
      cases move <;> rfl
    have hmoves : movesOf (.move move :: rest) = [move] ++ movesOf rest := rfl
    rw [runSteps_cons hstep (ih _), hmoves, readsAfter_append, List.append_assoc, answers, answers,
      answers, List.map_append]
  | within block rest ihblock ih =>
    have hpush : (scopes.after before).push = scopes.after (before ++ [.push]) := by
      rw [after_append]
      rfl
    have hstep : (Step.within block).run (scopes.after before) =
        (scopes.answers (readsAfter before (Step.within block).moves),
          scopes.after (before ++ (Step.within block).moves)) := by
      rw [run_within (hpush ▸ ihblock _)]
      simp [Step.moves, readsAfter, readsAfter_append, apply]
    have hmoves : movesOf (.within block :: rest) = (Step.within block).moves ++ movesOf rest := rfl
    rw [runSteps_cons hstep (ih _), hmoves, readsAfter_append, List.append_assoc, answers, answers,
      answers, List.map_append]

/-- Each read in a block gives what the name means after the moves made before it since the block
began, and nothing else. -/
def Answered (outer : Scopes) (block : List Step) (results : List (Option Value)) : Prop :=
  List.Forall₂ (fun read answer => ∀ value?, Means outer read.1 read.2 value? ↔ answer = value?)
    (readsAfter [] (movesOf block)) results

/-- The base scope stays whatever a program does. A program whose blocks close just the scopes they
open leaves the scopes as they were before each block, and each read in a block gives what the name
means after the moves that the block has made so far. -/
theorem runSteps_blocks (program : List Step) (scopes : Scopes) :
    (runSteps program scopes).2 = scopes.after (movesOf program) ∧
      (∀ front, front <+: movesOf program →
        1 ≤ (scopes.after front).depth ∧
          ∃ bindings, bindings.Sublist (front.filterMap Move.binding?) ∧
            (scopes.after front).toList.getLast? = some (scopes.base.insertAll bindings)) ∧
      (Tidy program → ∀ block, Encloses program block → ∀ outer : Scopes,
        ((Step.within block).run outer).2 = outer ∧
          Answered outer block ((Step.within block).run outer).1) := by
  refine ⟨?_, fun front _ => ⟨?_, ?_⟩, fun htidy block hblock outer => ?_⟩
  · exact congrArg Prod.snd (runSteps_after program scopes [])
  · exact Nat.le_add_left 1 _
  · obtain ⟨bindings, hsublist, hbase⟩ := after_base scopes front
    exact ⟨bindings, hsublist, by simp [toList, hbase]⟩
  · have hbalanced := htidy.balanced_movesOf hblock
    rw [run_within (runSteps_after block outer.push [])]
    refine ⟨hbalanced.after_push_pop outer, ?_⟩
    rw [Answered, answers, List.forall₂_map_right_iff, List.forall₂_same]
    intro read hread value?
    obtain ⟨front, rest, hmoves, heq⟩ := exists_of_mem_readsAfter hread
    have hopen := hbalanced.staysOpen
    rw [hmoves, staysOpen_append] at hopen
    rw [heq]
    exact means_iff outer hopen.1 read.2

/-- A block in which a name is bound three times over, with a block in it. -/
def shadowingBlock : List Step :=
  [.move (.set "name" (.string "outer")), .move .push, .move (.set "name" (.string "inner")),
    .within [.move (.get "name"), .move (.set "element" .null), .move (.set "name" .null)],
    .move (.get "name"), .move .pop, .move (.get "name"), .move (.get "element")]

theorem tidy_shadowing : Tidy [.move .pop, .within shadowingBlock, .move (.get "name")] := by
  simp only [Tidy.cons_move_iff, Tidy.cons_within_iff, shadowingBlock]
  exact ⟨by decide, ⟨by decide, .nil, .nil⟩, .nil⟩

theorem runSteps_blocks_shadowing :
    Tidy [.move .pop, .within shadowingBlock, .move (.get "name")] ∧
      (Step.within shadowingBlock).run .empty =
        ([some (.string "inner"), some (.string "inner"), some (.string "outer"), none], .empty) ∧
      Answered .empty shadowingBlock ((Step.within shadowingBlock).run .empty).1 := by
  refine ⟨tidy_shadowing, ?_, ?_⟩
  · rfl
  · exact ((runSteps_blocks _ .empty).2.2 tidy_shadowing shadowingBlock
      (.here (by simp)) .empty).2

end Scopes

end Stencil
