import Stencil.Proofs.Source.Place

/-!
# Layout of sorted blocks of includes

Lines that layout gives out as they are stay so when their blocks of includes are sorted
(`Layout.run_sortIncludes`): layout gives every include line out between the lines before it and the
lines after it, and what it remembers after a block does not depend on the order of its lines.
-/

namespace Stencil.Source

open Text

/-! ## Lines around blocks -/

namespace Layout

variable {s : Layout} {kind : LineKind} {line : Line}

/-- Lines that are given out behind the open run, whatever it is, are so behind all that is held
back. -/
theorem settle_append {depth : Nat} {tail : List (LineKind × Line)} {out : List Line}
    (htail : ∀ run, settle depth run tail = arrange run ++ out) (run : List Line)
    (held : List (LineKind × Line)) :
    settle depth run (held ++ tail) = settle depth run held ++ out := by
  induction held generalizing run with
  | nil => exact htail run
  | cons entry held ih =>
    obtain ⟨kind, line⟩ := entry
    cases hjoins : joinsRun kind with
    | true => rw [List.cons_append, settle_of_joinsRun hjoins, settle_of_joinsRun hjoins, ih]
    | false =>
      rw [List.cons_append, settle_of_not_joinsRun hjoins, settle_of_not_joinsRun hjoins, ih,
        List.append_assoc, List.cons_append]

theorem settle_append_cons (h : joinsRun kind = false) (depth : Nat) (run : List Line)
    (held held' : List (LineKind × Line)) :
    settle depth run (held ++ (kind, line) :: held') =
      settle depth run held ++ normalize (separatorLevel depth kind) line ::
        settle depth [] held' :=
  settle_append (fun run => settle_of_not_joinsRun h depth run line held') run held

/-- What is held back behind a comment or preprocessor line is given out behind it. -/
theorem run_declarations_append (h : joinsRun kind = false) (depth : Nat)
    (held held' : List (LineKind × Line)) (inComment after : Bool) (lines : List Line) :
    run ⟨.declarations (held ++ (kind, line) :: held'), depth, inComment, after⟩ lines =
      settle depth [] held ++ normalize (separatorLevel depth kind) line ::
        run ⟨.declarations held', depth, inComment, after⟩ lines := by
  induction lines generalizing held' inComment with
  | nil => exact settle_append_cons h depth [] held held'
  | cons other lines ih =>
    cases hends : endsDeclarations (classify inComment other).1 with
    | true => simp [run, step, hends, pending, settle_append_cons h]
    | false => simp [run, step, hends, ih]

/-- The state with nothing held back. -/
def flushed (s : Layout) : Layout :=
  match s.phase with
  | .declarations _ => { s with phase := .declarations [] }
  | _ => s

theorem flushed_of_not_inDeclarations (hs : s.inDeclarations = false) : s.flushed = s := by
  unfold flushed
  split
  · next held hphase => exact absurd hphase (ne_declarations hs held)
  · rfl

theorem pending_flushed (s : Layout) (inComment : Bool) :
    pending { s.flushed with inComment } = [] := by
  cases hs : s.inDeclarations with
  | true =>
    obtain ⟨held, hphase⟩ := exists_of_inDeclarations hs
    simp only [flushed, hphase, pending]
    rfl
  | false =>
    rw [flushed_of_not_inDeclarations hs]
    exact pending_of_not_inDeclarations (s := { s with inComment }) hs

theorem place_of_not_joinsRun (h : joinsRun kind = false) (s : Layout) (line : Line) :
    s.place kind line = normalize (separatorLevel s.level kind) line := by
  cases kind with
  | comment => rfl
  | preprocessor => rfl
  | _ => cases h

theorem not_endsDeclarations_of_not_joinsRun (h : joinsRun kind = false) :
    endsDeclarations kind = false := by
  cases kind with
  | comment => rfl
  | preprocessor => rfl
  | _ => cases h

theorem emit_of_not_joinsRun (h : joinsRun kind = false) (s : Layout) (line : Line) :
    s.emit kind line = (s, s.place kind line) := by
  cases kind with
  | comment => rfl
  | preprocessor => rfl
  | _ => cases h

/-- A comment or preprocessor line is given out between the lines before it and those after it. -/
theorem run_cons_of_not_joinsRun {inComment : Bool}
    (hkind : classify s.inComment line = (kind, inComment)) (h : joinsRun kind = false)
    (lines : List Line) :
    s.run (line :: lines) =
      s.pending ++ s.place kind line :: run { s.flushed with inComment } lines := by
  cases hs : s.inDeclarations with
  | true =>
    obtain ⟨held, hphase⟩ := exists_of_inDeclarations hs
    have hends := not_endsDeclarations_of_not_joinsRun h
    have hstep : s.step line =
        ({ s with phase := .declarations (held ++ [(kind, line)]), inComment }, []) := by
      simp [step, hphase, hkind, hends]
    rw [run, hstep, run_declarations_append h, place_of_not_joinsRun h]
    simp [pending, flushed, level, hphase]
  | false =>
    rw [run, step_of_not_inDeclarations hs hkind, emit_of_not_joinsRun h,
      pending_of_not_inDeclarations hs, flushed_of_not_inDeclarations hs,
      place_of_not_joinsRun h, place_of_not_joinsRun h]
    rfl

/-! ## Layout of blocks -/

/-- What is remembered after a block of includes. -/
def afterIncludes (s : Layout) (block : List Line) : Layout :=
  { s.flushed with
    inComment := s.inComment && block.all fun line => !occursIn commentEnd (trim line) }

theorem afterIncludes_afterIncludes (s : Layout) (line : Line) (block : List Line) :
    (s.afterIncludes [line]).afterIncludes block = s.afterIncludes (line :: block) := by
  cases hphase : s.phase <;> simp [afterIncludes, flushed, hphase, Bool.and_assoc]

theorem level_afterIncludes (s : Layout) (block : List Line) :
    (s.afterIncludes block).level = s.level := by
  cases hphase : s.phase <;> simp [afterIncludes, flushed, hphase, level]

/-- An include line is a preprocessor line, or one of a comment. -/
theorem classify_of_isInclude (h : isInclude line = true) (inComment : Bool) :
    classify inComment line =
      (if inComment then .comment else .preprocessor,
        inComment && !occursIn commentEnd (trim line)) := by
  cases inComment with
  | true => rfl
  | false =>
    have hhead := head?_trim_of_head? (by decide) (head?_of_isInclude h)
    obtain ⟨rest, htrim⟩ := List.head?_eq_some_iff.1 hhead
    simp [classify, htrim]

/-- The level of an include line. -/
def includeLevel (s : Layout) : Nat :=
  if s.inComment then s.level else 0

theorem includeLevel_afterIncludes (h : s.includeLevel = 0) (block : List Line) :
    (s.afterIncludes block).includeLevel = 0 := by
  unfold includeLevel at h ⊢
  rw [ite_eq_right_iff] at h ⊢
  intro hcomment
  rw [level_afterIncludes]
  exact h (Bool.and_eq_true_iff.1 hcomment).1

theorem run_cons_of_isInclude (h : isInclude line = true) (rest : List Line) :
    s.run (line :: rest) =
      s.pending ++ normalize s.includeLevel line :: (s.afterIncludes [line]).run rest := by
  have hkind := classify_of_isInclude h s.inComment
  cases hcomment : s.inComment with
  | true =>
    have hjoins : joinsRun .comment = false := rfl
    rw [hcomment, if_pos rfl, ← hcomment] at hkind
    rw [run_cons_of_not_joinsRun hkind hjoins, place_of_not_joinsRun hjoins]
    simp [afterIncludes, includeLevel, separatorLevel, hcomment]
  | false =>
    have hjoins : joinsRun .preprocessor = false := rfl
    rw [hcomment, if_neg Bool.false_ne_true, ← hcomment] at hkind
    rw [run_cons_of_not_joinsRun hkind hjoins, place_of_not_joinsRun hjoins]
    simp [afterIncludes, includeLevel, separatorLevel, hcomment]

/-- A block of includes is given out between the lines before it and those after it. -/
theorem run_includes (hlevel : s.includeLevel = 0) {block : List Line}
    (hblock : ∀ other ∈ line :: block, isInclude other = true) (rest : List Line) :
    s.run (line :: (block ++ rest)) =
      s.pending ++ (line :: block).map (normalize 0) ++
        (s.afterIncludes (line :: block)).run rest := by
  induction block generalizing s line with
  | nil =>
    rw [List.nil_append, run_cons_of_isInclude (hblock line List.mem_cons_self), hlevel]
    simp
  | cons other block ih =>
    rw [List.forall_mem_cons] at hblock
    rw [List.cons_append, run_cons_of_isInclude hblock.1, hlevel,
      ih (includeLevel_afterIncludes hlevel [line]) hblock.2,
      show (s.afterIncludes [line]).pending = [] from pending_flushed s _,
      afterIncludes_afterIncludes]
    simp

theorem length_run (lines : List Line) : (run {} lines).length = lines.length := by
  obtain ⟨zs, hlaid⟩ := exists_laid lines
  rw [← hlaid.shown.length_eq, hlaid.placed.length_eq]

/-- The lines of a block of includes may change places if layout leaves the lines of the text as
they are. -/
theorem run_perm_includes {front block block' rest : List Line} (hperm : block.Perm block')
    (hblock : ∀ line ∈ block, isInclude line = true)
    (h : run {} (front ++ (block ++ rest)) = front ++ (block ++ rest)) :
    run {} (front ++ (block' ++ rest)) = front ++ (block' ++ rest) := by
  cases block with
  | nil => rwa [hperm.nil_eq] at h
  | cons line block =>
  cases block' with
  | nil => exact absurd hperm.eq_nil (List.cons_ne_nil _ _)
  | cons line' block' =>
    have hblock' : ∀ other ∈ line' :: block', isInclude other = true := by
      intro other hother
      exact hblock other (hperm.mem_iff.2 hother)
    have hline := hblock line List.mem_cons_self
    obtain ⟨out, hout, hheld⟩ := exists_run_append {} front
    generalize after {} front = t at hout hheld
    have hlength : (out ++ t.pending).length = front.length := by
      rw [List.length_append, length_pending]
      exact hheld.trans (Nat.zero_add _)
    rw [hout] at h ⊢
    -- An include line that layout leaves in the first column is at level zero.
    have hlevel : t.includeLevel = 0 := by
      rw [List.cons_append, run_cons_of_isInclude hline, ← List.append_assoc] at h
      have hfixed := (List.cons.inj (List.append_inj h hlength).2).1
      have hhead := head?_of_isInclude hline
      rw [← hfixed, head?_normalize_eq_some_iff (by decide)] at hhead
      exact hhead.1
    have hafter : t.afterIncludes (line' :: block') = t.afterIncludes (line :: block) := by
      rw [afterIncludes, afterIncludes, hperm.symm.all_eq]
    rw [List.cons_append, run_includes hlevel hblock, List.append_assoc, ← List.append_assoc out,
      ← List.cons_append] at h
    obtain ⟨hfront, hrest⟩ := List.append_inj h hlength
    obtain ⟨hmap, hrest⟩ := List.append_inj hrest (List.length_map _)
    have hfixed : ∀ other ∈ line :: block, normalize 0 other = id other :=
      List.map_inj_left.1 (hmap.trans (List.map_id _).symm)
    have hmap' : (line' :: block').map (normalize 0) = line' :: block' := by
      conv => rhs; rw [← List.map_id (line' :: block')]
      exact List.map_inj_left.2 fun other hother => hfixed other (hperm.mem_iff.2 hother)
    rw [List.cons_append, run_includes hlevel hblock', hafter, hmap', hrest, List.append_assoc,
      ← List.append_assoc out, hfront, List.cons_append]

theorem run_append_sortIncludesFrom (front : List Line) {block : List Line}
    (hblock : ∀ line ∈ block, isInclude line = true) {lines : List Line}
    (h : run {} (front ++ (block ++ lines)) = front ++ (block ++ lines)) :
    run {} (front ++ sortIncludesFrom block lines) = front ++ sortIncludesFrom block lines := by
  induction lines generalizing front block with
  | nil =>
    have hperm : block.Perm (sortBlock block) := (perm_stableSort _ block).symm
    have hsorted := run_perm_includes hperm hblock h
    rwa [List.append_nil] at hsorted
  | cons line lines ih =>
    cases hline : isInclude line with
    | true =>
      rw [sortIncludesFrom, if_pos hline]
      refine ih front ?_ ?_
      · rw [List.forall_mem_append, List.forall_mem_singleton]
        exact ⟨hblock, hline⟩
      · rwa [List.append_assoc, List.singleton_append]
    | false =>
      have hperm : block.Perm (sortBlock block) := (perm_stableSort _ block).symm
      have hsorted := run_perm_includes hperm hblock h
      rw [sortIncludesFrom, hline, if_neg Bool.false_ne_true]
      have hnil : ∀ other ∈ ([] : List Line), isInclude other = true := by simp
      have hlines := ih (front ++ (sortBlock block ++ [line])) hnil
      simp only [List.append_assoc, List.singleton_append, List.nil_append] at hlines
      exact hlines hsorted

/-- Lines that layout leaves as they are stay so when their blocks of includes are sorted. -/
theorem run_sortIncludes {lines : List Line} (h : run {} lines = lines) :
    run {} (sortIncludes lines) = sortIncludes lines := by
  have hnil : ∀ line ∈ ([] : List Line), isInclude line = true := by simp
  exact run_append_sortIncludesFrom [] hnil h

end Layout

end Stencil.Source
