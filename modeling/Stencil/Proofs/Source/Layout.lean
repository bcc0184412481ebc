import Stencil.Proofs.Rearrangement
import Stencil.Proofs.Source.Alignment

/-!
# Layout rearranges lines within runs

A *run* is a stretch of lines that layout holds back with no comment or preprocessor line between;
`Layout.runFlags` marks the lines of runs. The lines given out are followed to the lines they were
by `Laid`: all lines are there, a line has moved only within its run, a run is in declaration order
with lines that are alike as they came (`Before`), and a line is given out normalized, and aligned
if it is in a run (`Written`).

The invariant of a step is about the lines held back and the lines to come together: whatever layout
still gives out is laid out from them (`Layout.run_laid`).
-/

namespace Stencil.Source

open Text

/-- Whether a line is a declaration. -/
def isDeclaration (line : Line) : Bool :=
  (Declaration.parse? line).isSome

theorem isDeclaration_normalize (level : Nat) (line : Line) :
    isDeclaration (normalize level line) = isDeclaration line :=
  Declaration.isSome_parse?_normalize level line

/-- Whether a line of a run may stand before another one, however they are indented. -/
def mayPrecede (a b : Line) : Bool :=
  sortDeclarations.order (normalize 0 a) (normalize 0 b)

theorem order_normalize (level : Nat) (a b : Line) :
    sortDeclarations.order (normalize level a) (normalize level b) = mayPrecede a b := by
  have hparse : ∀ line, Declaration.parse? (normalize level line) =
      Declaration.parse? (normalize 0 line) := by
    intro line
    rw [Declaration.parse?, Declaration.parse?, trim_normalize, trim_normalize]
  rw [mayPrecede, sortDeclarations.order, sortDeclarations.order, hparse, hparse]

theorem order_of_not_isDeclaration (a : Line) {b : Line} (hb : isDeclaration b = false) :
    sortDeclarations.order a b = true := by
  rw [isDeclaration, Option.isSome_eq_false_iff, Option.isNone_iff_eq_none] at hb
  unfold sortDeclarations.order
  rw [hb]
  cases Declaration.parse? a <;> rfl

theorem mayPrecede_of_not_isDeclaration (a : Line) {b : Line} (hb : isDeclaration b = false) :
    mayPrecede a b = true :=
  order_of_not_isDeclaration _ (by rwa [isDeclaration_normalize])

theorem mayPrecede_of_isDeclaration {a b : Line} (ha : isDeclaration a = false)
    (hb : isDeclaration b = true) : mayPrecede a b = false := by
  rw [← isDeclaration_normalize 0, isDeclaration, Option.isSome_eq_false_iff,
    Option.isNone_iff_eq_none] at ha
  rw [← isDeclaration_normalize 0] at hb
  obtain ⟨d, hd⟩ := Option.isSome_iff_exists.1 hb
  rw [mayPrecede, sortDeclarations.order, ha, hd]

/-- How a line is given out: normalized, and aligned if it is in a run. -/
inductive Written (inRun : Prop) (line : Line) : Line → Prop
  | normalized (h : ¬inRun) (level : Nat) : Written inRun line (normalize level line)
  | aligned (h : inRun) (level offset : Nat) :
    Written inRun line (alignLine offset (normalize level line))

theorem Written.ink_eq {inRun : Prop} {line out : Line} (h : Written inRun line out) :
    ink out = ink line := by
  cases h with
  | normalized _ level => exact ink_normalize level line
  | aligned _ level offset => rw [ink_alignLine, ink_normalize]

namespace Layout

/-- Whether a line of this kind that is held back belongs to a run. -/
def joinsRun : LineKind → Bool
  | .comment | .preprocessor => false
  | _ => true

/-- Whether a line is held back in a run. -/
def holdsInRun (s : Layout) (line : Line) : Bool :=
  match s.phase with
  | .declarations _ =>
    !endsDeclarations (classify s.inComment line).1 && joinsRun (classify s.inComment line).1
  | _ => false

/-- For each of the lines whether it is held back in a run. -/
def runFlags (s : Layout) : List Line → List Bool
  | [] => []
  | line :: lines => s.holdsInRun line :: runFlags (s.step line).1 lines

/-- For each of the lines held back whether it is in a run. -/
def heldFlags (held : List (LineKind × Line)) : List Bool :=
  held.map fun entry => joinsRun entry.1

@[simp] theorem heldFlags_nil : heldFlags [] = [] := rfl

@[simp] theorem heldFlags_cons (entry : LineKind × Line) (held : List (LineKind × Line)) :
    heldFlags (entry :: held) = joinsRun entry.1 :: heldFlags held := rfl

@[simp] theorem heldFlags_append (held held' : List (LineKind × Line)) :
    heldFlags (held ++ held') = heldFlags held ++ heldFlags held' :=
  List.map_append

@[simp] theorem length_heldFlags (held : List (LineKind × Line)) :
    (heldFlags held).length = held.length :=
  List.length_map _

/-- No line of a run starts with a hash sign. -/
def Hashless (held : List (LineKind × Line)) : Prop :=
  ∀ entry ∈ held, joinsRun entry.1 = true → (ink entry.2).head? ≠ some '#'

/-- The lines held back. -/
def heldLines (s : Layout) : List (LineKind × Line) :=
  match s.phase with
  | .declarations held => held
  | _ => []

theorem pending_eq (s : Layout) : s.pending = settle s.depth [] s.heldLines := by
  unfold pending heldLines
  cases s.phase <;> rfl

/-! ## Lines and what they become -/

/-- In the lines given out `a` may stand before `b`: it did before, if they are in no run together;
in a run it does if it may stand there, and it did before if they are alike. -/
structure Before (flags : List Bool) (a b : Line × Nat) : Prop where
  lt : ¬SameRun flags a.2 b.2 → a.2 < b.2
  order : SameRun flags a.2 b.2 →
    mayPrecede a.1 b.1 = true ∧ (mayPrecede b.1 a.1 = true → a.2 < b.2)

/-- The line `y` is what is given out for `z`. -/
structure Shows (flags : List Bool) (z : Line × Nat) (y : Line) : Prop where
  written : Written (flags[z.2]? = some true) z.1 y
  isInclude : isInclude y = true → isInclude z.1 = true ∧ flags[z.2]? ≠ some true

theorem Shows.ink_eq {flags : List Bool} {z : Line × Nat} {y : Line} (h : Shows flags z y) :
    ink y = ink z.1 :=
  h.written.ink_eq

/-- The lines `ys` are given out for the lines `xs`, which start at the place `start`; `zs` are the
lines of `xs` with their places, in the order in which they are given out. -/
structure Laid (flags : List Bool) (start : Nat) (xs : List Line) (zs : List (Line × Nat))
    (ys : List Line) : Prop where
  placed : Placed flags start xs zs
  ordered : zs.Pairwise (Before flags)
  shown : List.Forall₂ (Shows flags) zs ys

variable {flags rest : List Bool} {start : Nat}

namespace Laid

variable {xs xs' ys ys' : List Line} {zs zs' : List (Line × Nat)}

theorem nil : Laid flags start [] [] [] where
  placed := .nil
  ordered := .nil
  shown := .nil

/-- Lines may be laid out one part after the other if no run goes from one part into the other. -/
theorem append (h : Laid flags start xs zs ys) (h' : Laid flags (start + xs.length) xs' zs' ys')
    (hcut : ∀ i j, start ≤ i → i < start + xs.length → start + xs.length ≤ j →
      ¬SameRun flags i j) :
    Laid flags start (xs ++ xs') (zs ++ zs') (ys ++ ys') where
  placed := h.placed.append h'.placed
  ordered := by
    rw [List.pairwise_append]
    refine ⟨h.ordered, h'.ordered, fun a ha b hb => ?_⟩
    have hplace := h.placed.place_mem ha
    have hplace' := h'.placed.place_mem hb
    refine ⟨fun _ => by omega, fun hrun => ?_⟩
    exact absurd hrun (hcut _ _ hplace.1 hplace.2 hplace'.1)
  shown := List.rel_append h.shown h'.shown

/-- A line outside of runs. -/
theorem cons {x y : Line} (hx : flags[start]? ≠ some true) (hy : Shows flags (x, start) y)
    (h : Laid flags (start + 1) xs zs ys) :
    Laid flags start (x :: xs) ((x, start) :: zs) (y :: ys) := by
  have hx' : Laid flags start [x] [(x, start)] [y] :=
    ⟨.singleton x, List.pairwise_singleton _ _, .cons hy .nil⟩
  refine hx'.append h fun i j hi hi' _ hrun => hx ?_
  rw [List.length_singleton] at hi'
  rw [show start = i by omega]
  exact hrun.left

/-- A whole run, and what follows it. -/
theorem run_append (h : Laid flags start xs zs ys)
    (h' : Laid flags (start + xs.length) xs' zs' ys')
    (hcut : flags[start + xs.length]? ≠ some true) :
    Laid flags start (xs ++ xs') (zs ++ zs') (ys ++ ys') := by
  refine h.append h' fun i j _ hi hj hrun => hcut ?_
  exact hrun.between (by omega) hj

end Laid

theorem shows_normalize (x : Line) (hx : flags[start]? ≠ some true) (level : Nat) :
    Shows flags (x, start) (normalize level x) where
  written := .normalized hx level
  isInclude h := ⟨((isInclude_normalize_iff level x).1 h).2, hx⟩

/-! ## Runs -/

/-- A line of a run is no preprocessor line. -/
theorem head?_ink_of_joinsRun {inComment : Bool} {line : Line}
    (h : joinsRun (classify inComment line).1 = true) : (ink line).head? ≠ some '#' := by
  rw [head?_ink_trim]
  intro hhash
  obtain ⟨rest, htrim⟩ := List.head?_eq_some_iff.1 hhash
  have hkind : (classify inComment line).1 = .comment ∨
      (classify inComment line).1 = .preprocessor := by
    unfold classify
    rw [htrim]
    cases inComment with
    | true => exact .inl rfl
    | false => exact .inr rfl
  rcases hkind with hkind | hkind
  · rw [hkind] at h
    cases h
  · rw [hkind] at h
    cases h

/-- The lines of a run in declaration order, with their places. -/
def arrangedPlaces (start : Nat) (run : List Line) : List (Line × Nat) :=
  stableSort (fun a b => mayPrecede a.1 b.1) (run.zipIdx start)

theorem map_arrangedPlaces (depth start : Nat) (run : List Line) :
    (arrangedPlaces start run).map (fun z => normalize depth z.1) =
      sortDeclarations (run.map (normalize depth)) := by
  have hlines : (run.zipIdx start).map (fun z => normalize depth z.1) =
      run.map (normalize depth) := by
    conv => rhs; rw [← List.zipIdx_map_fst start run, List.map_map]
    rfl
  rw [arrangedPlaces, stableSort_map fun _ _ => order_normalize depth _ _, hlines,
    sortDeclarations]

theorem mem_arrangedPlaces {run : List Line} {z : Line × Nat} (h : z ∈ arrangedPlaces start run) :
    z.1 ∈ run ∧ start ≤ z.2 ∧ z.2 < start + run.length := by
  have hz : z ∈ run.zipIdx start := (perm_stableSort _ _).mem_iff.1 h
  obtain ⟨hle, hlt, -⟩ := List.mem_zipIdx hz
  refine ⟨?_, hle, hlt⟩
  rw [← List.zipIdx_map_fst start run]
  exact List.mem_map_of_mem hz

theorem pairwise_arrangedPlaces (run : List Line)
    (hflags : flags.drop start = List.replicate run.length true ++ rest) :
    (arrangedPlaces start run).Pairwise (Before flags) := by
  have htrans : ∀ a b c, mayPrecede a b = true → mayPrecede b c = true → mayPrecede a c = true :=
    fun _ _ _ => order_trans _ _ _
  have htotal : ∀ a b, mayPrecede a b = true ∨ mayPrecede b a = true := fun _ _ => order_total _ _
  have hstable := pairwise_stableSort_zipIdx htrans htotal start run
  refine hstable.imp_of_mem fun {a b} ha hb hab => ⟨fun hnot => ?_, fun _ => hab⟩
  obtain ⟨-, hle, hlt⟩ := mem_arrangedPlaces ha
  obtain ⟨-, hle', hlt'⟩ := mem_arrangedPlaces hb
  exact absurd (sameRun_of_drop hflags hle hlt hle' hlt') hnot

/-- A run as it is given out. -/
theorem arrange_laid {run : List Line} (hrun : ∀ line ∈ run, (ink line).head? ≠ some '#')
    (hflags : flags.drop start = List.replicate run.length true ++ rest) (depth : Nat) :
    Laid flags start run (arrangedPlaces start run)
      (arrange (run.map (normalize depth))) where
  placed := .of_perm hflags (perm_stableSort _ _)
  ordered := pairwise_arrangedPlaces run hflags
  shown := by
    obtain ⟨offset, halign⟩ :=
      exists_align_eq_alignTo (sortDeclarations (run.map (normalize depth)))
    rw [arrange, halign, ← map_arrangedPlaces depth start, alignTo, List.map_map,
      List.forall₂_map_right_iff, List.forall₂_same]
    intro z hz
    obtain ⟨hline, hle, hlt⟩ := mem_arrangedPlaces hz
    have hflag : flags[z.2]? = some true := (sameRun_of_drop hflags hle hlt hle hlt).left
    have hwritten : Written (flags[z.2]? = some true) z.1
        (alignLine offset (normalize depth z.1)) := .aligned hflag depth offset
    refine ⟨hwritten, fun hincluded => ?_⟩
    exact absurd (head?_ink_of_isInclude hincluded) (hwritten.ink_eq ▸ hrun z.1 hline)

theorem settle_of_joinsRun {kind : LineKind} (h : joinsRun kind = true) (depth : Nat)
    (run : List Line) (line : Line) (held : List (LineKind × Line)) :
    settle depth run ((kind, line) :: held) =
      settle depth (run ++ [normalize depth line]) held := by
  cases kind with
  | comment => cases h
  | preprocessor => cases h
  | _ => rfl

/-- The level of a comment or preprocessor line between runs. -/
def separatorLevel (depth : Nat) : LineKind → Nat
  | .preprocessor => 0
  | _ => depth

theorem settle_of_not_joinsRun {kind : LineKind} (h : joinsRun kind = false) (depth : Nat)
    (run : List Line) (line : Line) (held : List (LineKind × Line)) :
    settle depth run ((kind, line) :: held) =
      arrange run ++ normalize (separatorLevel depth kind) line :: settle depth [] held := by
  cases kind with
  | comment => rfl
  | preprocessor => rfl
  | _ => cases h

/-- The lines held back as they are given out, and what follows them: `run` are the lines of the run
that is open. -/
theorem settle_laid (depth : Nat) {held : List (LineKind × Line)}
    (hheld : Hashless held)
    {run : List Line} (hrun : ∀ line ∈ run, (ink line).head? ≠ some '#')
    (hflags : flags.drop start =
      List.replicate run.length true ++ (heldFlags held ++ rest))
    (hrest : rest.head? ≠ some true) {xs ys : List Line} {zs : List (Line × Nat)}
    (h : Laid flags (start + run.length + held.length) xs zs ys) :
    ∃ zs', Laid flags start (run ++ (held.map Prod.snd ++ xs)) zs'
      (settle depth (run.map (normalize depth)) held ++ ys) := by
  induction held generalizing start run with
  | nil =>
    have hnext := getElem?_of_drop (drop_of_drop_append hflags) 0
    rw [List.length_replicate, Nat.add_zero, heldFlags_nil, List.nil_append,
      ← List.head?_eq_getElem?] at hnext
    exact ⟨_, (arrange_laid hrun hflags depth).run_append h (hnext ▸ hrest)⟩
  | cons entry held ih =>
    obtain ⟨kind, line⟩ := entry
    have hheld' := fun entry hentry => hheld entry (List.mem_cons_of_mem _ hentry)
    cases hjoins : joinsRun kind with
    | true =>
      have hrun' : ∀ other ∈ run ++ [line], (ink other).head? ≠ some '#' := by
        intro other hother
        rw [List.mem_append, List.mem_singleton] at hother
        rcases hother with hother | rfl
        · exact hrun other hother
        · exact hheld (kind, other) List.mem_cons_self hjoins
      have hflags' : flags.drop start = List.replicate (run ++ [line]).length true ++
          (heldFlags held ++ rest) := by
        rw [hflags, heldFlags_cons, hjoins, List.length_append, List.length_singleton,
          List.replicate_succ', List.append_assoc, List.singleton_append, List.cons_append]
      have hlength : start + (run ++ [line]).length + held.length =
          start + run.length + ((kind, line) :: held).length := by
        rw [List.length_append, List.length_singleton, List.length_cons]
        omega
      obtain ⟨zs', hzs'⟩ := ih hheld' hrun' hflags' (hlength ▸ h)
      refine ⟨zs', ?_⟩
      rw [settle_of_joinsRun hjoins]
      rwa [List.map_append, List.map_singleton, List.append_assoc] at hzs'
    | false =>
      rw [heldFlags_cons, hjoins] at hflags
      have hflags' := drop_of_drop_append hflags
      rw [List.length_replicate] at hflags'
      have hcut : flags[start + run.length]? ≠ some true := by
        have := getElem?_of_drop hflags' 0
        rw [Nat.add_zero] at this
        simp [this]
      have hnext : flags.drop (start + run.length + 1) =
          List.replicate ([] : List Line).length true ++
            (heldFlags held ++ rest) :=
        drop_of_drop_cons hflags'
      have hlength : start + run.length + 1 + ([] : List Line).length + held.length =
          start + run.length + ((kind, line) :: held).length := by
        rw [List.length_nil, List.length_cons]
        omega
      obtain ⟨zs', hzs'⟩ := ih hheld' (by simp) hnext (hlength ▸ h)
      have hline := Laid.cons hcut (shows_normalize line hcut (separatorLevel depth kind)) hzs'
      have hwhole := (arrange_laid hrun hflags depth).run_append hline hcut
      rw [settle_of_not_joinsRun hjoins, List.append_assoc]
      exact ⟨_, hwhole⟩

/-- All that is held back as it is given out, and what follows it. -/
theorem pending_laid (s : Layout)
    (hheld : Hashless s.heldLines)
    (hflags : flags.drop start = heldFlags s.heldLines ++ rest)
    (hrest : rest.head? ≠ some true) {xs ys : List Line} {zs : List (Line × Nat)}
    (h : Laid flags (start + s.heldLines.length) xs zs ys) :
    ∃ zs', Laid flags start (s.heldLines.map Prod.snd ++ xs) zs' (s.pending ++ ys) := by
  have hrun : ∀ line ∈ ([] : List Line), (ink line).head? ≠ some '#' := by simp
  rw [pending_eq]
  exact settle_laid s.depth hheld hrun hflags hrest h

/-! ## Steps -/

theorem exists_emit_eq (s : Layout) (kind : LineKind) (line : Line) :
    ∃ level, (s.emit kind line).2 = normalize level line := by
  cases kind with
  | preprocessor => exact ⟨0, rfl⟩
  | _ => exact ⟨_, rfl⟩

/-- After a line that is given out nothing is held back. -/
theorem heldLines_emit {s : Layout} (hs : s.heldLines = []) (kind : LineKind) (line : Line) :
    (s.emit kind line).1.heldLines = [] := by
  unfold heldLines at hs
  cases kind with
  | openBrace =>
    simp only [emit, heldLines]
    split
    · next h =>
      split at h
      · cases h
        rfl
      · rwa [h] at hs
    · rfl
  | closeBrace => rfl
  | caseLabel => rfl
  | breakStatement =>
    cases hphase : s.phase with
    | declarations held =>
      rw [hphase] at hs
      simp [emit, heldLines, hphase, hs]
    | plain => simp [emit, heldLines, hphase]
    | caseBody level => simp [emit, heldLines, hphase]
  | code hasParenthesis =>
    cases hphase : s.phase with
    | declarations held =>
      rw [hphase] at hs
      simp [emit, heldLines, hphase, hs]
    | plain => simp [emit, heldLines, hphase]
    | caseBody level =>
      simp only [emit, heldLines, hphase]
      split
      · next h => split at h <;> cases h
      · rfl
  | blank => exact hs
  | comment => exact hs
  | preprocessor => exact hs

/-- A line that is not held back is given out after all that was, with nothing held back any
more. -/
theorem exists_step_eq {s : Layout} {line : Line}
    (h : ∀ held, s.phase = .declarations held →
      endsDeclarations (classify s.inComment line).1 = true) :
    ∃ t : Layout, t.heldLines = [] ∧
      s.step line = ((t.emit (classify s.inComment line).1 line).1,
        s.pending ++ [(t.emit (classify s.inComment line).1 line).2]) := by
  cases hphase : s.phase with
  | declarations held =>
    have hends := h held hphase
    refine ⟨{ s with inComment := (classify s.inComment line).2, phase := .plain }, rfl, ?_⟩
    simp [step, hphase, hends, pending]
  | plain =>
    refine ⟨{ s with inComment := (classify s.inComment line).2 }, ?_, ?_⟩
    · simp [heldLines, hphase]
    · simp [step, hphase, pending]
  | caseBody level =>
    refine ⟨{ s with inComment := (classify s.inComment line).2 }, ?_, ?_⟩
    · simp [heldLines, hphase]
    · simp [step, hphase, pending]

/-- What a step does: the line joins those that are held back and nothing is given out, or all that
is held back is given out and the line after it. -/
theorem step_cases (s : Layout) (line : Line) :
    (s.holdsInRun line = joinsRun (classify s.inComment line).1 ∧
      (s.step line).1.heldLines = s.heldLines ++ [((classify s.inComment line).1, line)] ∧
      (s.step line).2 = []) ∨
    (s.holdsInRun line = false ∧ (s.step line).1.heldLines = [] ∧
      ∃ level, (s.step line).2 = s.pending ++ [normalize level line]) := by
  by_cases hholds : ∃ held, s.phase = .declarations held ∧
      endsDeclarations (classify s.inComment line).1 = false
  · obtain ⟨held, hphase, hends⟩ := hholds
    left
    simp [step, holdsInRun, heldLines, hphase, hends]
  · right
    have hends : ∀ held, s.phase = .declarations held →
        endsDeclarations (classify s.inComment line).1 = true := by
      intro held hphase
      cases hends : endsDeclarations (classify s.inComment line).1 with
      | true => rfl
      | false => exact absurd ⟨held, hphase, hends⟩ hholds
    have hholds' : s.holdsInRun line = false := by
      unfold holdsInRun
      split
      · next held hphase => rw [hends held hphase, Bool.not_true, Bool.false_and]
      · rfl
    obtain ⟨t, ht, hstep⟩ := exists_step_eq hends
    obtain ⟨level, hlevel⟩ := exists_emit_eq t (classify s.inComment line).1 line
    rw [hstep, hlevel]
    exact ⟨hholds', heldLines_emit ht _ line, level, rfl⟩

/-- Whatever layout still gives out is laid out from the lines held back and the lines to come. -/
theorem run_laid (s : Layout) (lines : List Line)
    (hheld : Hashless s.heldLines)
    (hflags : flags.drop start =
      heldFlags s.heldLines ++ s.runFlags lines) :
    ∃ zs, Laid flags start (s.heldLines.map Prod.snd ++ lines) zs (s.run lines) := by
  induction lines generalizing s start with
  | nil =>
    obtain ⟨zs, hzs⟩ := pending_laid s hheld hflags (by simp [runFlags]) .nil
    rw [List.append_nil s.pending] at hzs
    exact ⟨zs, hzs⟩
  | cons line lines ih =>
    rw [runFlags] at hflags
    rcases step_cases s line with ⟨hjoins, hstep, hout⟩ | ⟨hjoins, hstep, level, hout⟩
    · -- The line is held back, so the lines held back and the lines to come are the same together.
      have hheld' : Hashless (s.step line).1.heldLines := by
        intro entry hentry hentryjoins
        rw [hstep, List.mem_append, List.mem_singleton] at hentry
        rcases hentry with hentry | rfl
        · exact hheld entry hentry hentryjoins
        · exact head?_ink_of_joinsRun hentryjoins
      have hflags' : flags.drop start =
          heldFlags (s.step line).1.heldLines ++ (s.step line).1.runFlags lines := by
        rw [hflags, hstep, hjoins, heldFlags_append, List.append_assoc, heldFlags_cons,
          heldFlags_nil, List.singleton_append]
      have h := ih (s.step line).1 hheld' hflags'
      rw [run, hout, List.nil_append]
      rwa [hstep, List.map_append, List.append_assoc, List.map_singleton,
        List.singleton_append] at h
    · rw [hjoins] at hflags
      have hflags' := drop_of_drop_append hflags
      rw [length_heldFlags] at hflags'
      have hcut : flags[start + s.heldLines.length]? ≠ some true := by
        have := getElem?_of_drop hflags' 0
        rw [Nat.add_zero] at this
        simp [this]
      have hheld' : Hashless (s.step line).1.heldLines := by
        simp [Hashless, hstep]
      have hnext := drop_of_drop_cons hflags'
      obtain ⟨zs, hzs⟩ := ih (s.step line).1 hheld' (by rw [hstep]; exact hnext)
      rw [hstep] at hzs
      have hline := Laid.cons hcut (shows_normalize line hcut level) hzs
      rw [run, hout, List.append_assoc]
      exact pending_laid s hheld hflags (by simp) hline

/-- Layout of a whole text. -/
theorem exists_laid (lines : List Line) :
    ∃ zs, Laid (runFlags {} lines) 0 lines zs (run {} lines) := by
  have hheld : Hashless ({} : Layout).heldLines := by
    simp [Hashless, heldLines]
  exact run_laid {} lines hheld rfl

end Layout

end Stencil.Source
