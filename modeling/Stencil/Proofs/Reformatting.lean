import Stencil.CommandLine.Run
import Stencil.Proofs.Reformatting.Run

/-!
# Reformatting a tree

Each selected file of a tree is looked at once. The report tells which of them cannot be formatted
and which change, and these are the only files that change; if files are only checked, none does,
and the report is the same. The status of a check says whether all files are as they should be
(`reformat_tree`).
-/

namespace Stencil

namespace Reformatting

open Stencil.Task (tell_run)

variable {root : Path} {directory : Place}

/-! ## What is told and what changes -/

/-- The file cannot get its text formatted. -/
def Refused (checks : Bool) (refusal : Place → String → Option Store.Fault) (store : Store)
    (place : Place) : Prop :=
  checks = false ∧ ∃ text, store.text? place = some text ∧ Source.formatText text ≠ text ∧
    (refusal place (Source.formatText text)).isSome

namespace Outcome

/-- What may become of the file at a place, and when. -/
inductive Becomes (checks : Bool) (refusal : Place → String → Option Store.Fault) (store : Store)
    (place : Place) : Outcome → Prop where
  | unreadable : store.text? place = none →
    Becomes checks refusal store place (.failed .invalidData)
  | kept {text} : store.text? place = some text → Source.formatText text = text →
    Becomes checks refusal store place .kept
  | noted {text} : store.text? place = some text → Source.formatText text ≠ text →
    checks = true → Becomes checks refusal store place .noted
  | refused {text fault} : store.text? place = some text → Source.formatText text ≠ text →
    checks = false → refusal place (Source.formatText text) = some fault →
    Becomes checks refusal store place (.failed fault)
  | replaced {text} : store.text? place = some text → Source.formatText text ≠ text →
    checks = false → refusal place (Source.formatText text) = none →
    Becomes checks refusal store place (.replaced (Source.formatText text))

variable {checks : Bool} {refusal : Place → String → Option Store.Fault} {store : Store}
  {place : Place}

theorem becomes_of : Becomes checks refusal store place (of checks refusal store place) := by
  unfold of
  split
  · next htext => exact .unreadable htext
  · next text htext =>
    dsimp only
    split
    · next hsame => exact .kept htext hsame
    · next hne =>
      split
      · next hchecks => exact .noted htext hne hchecks
      · next hchecks =>
        split
        · next hrefusal => exact .refused htext hne (Bool.eq_false_iff.2 hchecks) hrefusal
        · next hrefusal => exact .replaced htext hne (Bool.eq_false_iff.2 hchecks) hrefusal

namespace Becomes

variable {outcome : Outcome} (h : Becomes checks refusal store place outcome)

include h

theorem isSome_fault? : outcome.fault?.isSome ↔
    store.text? place = none ∨ Refused checks refusal store place := by
  cases h with
  | unreadable htext => simp [fault?, htext]
  | kept htext hsame => simp [fault?, Refused, htext, hsame]
  | noted htext hne hchecks => simp [fault?, Refused, htext, hchecks]
  | refused htext hne hchecks hrefusal => simp [fault?, Refused, *]
  | replaced htext hne hchecks hrefusal => simp [fault?, Refused, htext, hrefusal]

theorem changes_iff : outcome.changes ↔
    outcome.fault?.isSome = false ∧
      ∃ text, store.text? place = some text ∧ Source.formatText text ≠ text := by
  cases h with
  | unreadable htext => simp [changes, fault?]
  | kept htext hsame => simp [changes, htext, hsame]
  | noted htext hne | replaced htext hne => simp [changes, fault?, htext, hne]
  | refused htext hne hchecks hrefusal => simp [changes, fault?]

theorem eq_replaced_iff {text' : String} : outcome = .replaced text' ↔
    checks = false ∧ outcome.changes ∧
      ∃ text, store.text? place = some text ∧ Source.formatText text = text' := by
  cases h with
  | unreadable | kept | refused => simp [changes]
  | noted htext hne hchecks => simp [hchecks]
  | replaced htext hne hchecks => simp [changes, htext, hchecks]

end Becomes

/-- Unless the file is refused, it is said of it what would be said if it were only checked. -/
theorem result_of_false (h : ¬ Refused false refusal store place) :
    (of false refusal store place).result = (of true refusal store place).result := by
  unfold of
  cases htext : store.text? place with
  | none => rfl
  | some text =>
    by_cases hsame : Source.formatText text = text
    · simp [hsame]
    · have hrefusal : refusal place (Source.formatText text) = none := by
        rw [← Option.not_isSome_iff_eq_none]
        exact fun hsome => h ⟨rfl, text, htext, hsame, hsome⟩
      simp [hsame, hrefusal]

end Outcome

section report

variable {checks : Bool} {refusal : Place → String → Option Store.Fault} {store : Store}
  {path : Place → Path} {files : List Place}

theorem map_fst_failed (path : Place → Path) (of : Place → Outcome) (files : List Place) :
    (reportOn path of files).failed.map Prod.fst =
      (files.filter fun place => (of place).fault?.isSome).map path := by
  induction files with
  | nil => rfl
  | cons place files ih =>
    rw [reportOn_cons, List.filter_cons]
    cases of place with
    | failed fault => exact congrArg (path place :: ·) ih
    | kept | noted | replaced => exact ih

/-- What a report tells of files: all of them are counted, and each is said to fail or to change if
and only if it does. -/
structure Report.Covers (report : Report) (store : Store) (path : Place → Path)
    (files : List Place) (Refused : Place → Prop) : Prop where
  checked : report.checked = files.length
  /-- None but the files is said to fail, and none twice. -/
  failed_sublist : (report.failed.map Prod.fst).Sublist (files.map path)
  /-- None but the files is said to change, and none twice. -/
  changed_sublist : report.changed.Sublist (files.map path)
  failed_iff : ∀ place ∈ files, path place ∈ report.failed.map Prod.fst ↔
    store.text? place = none ∨ Refused place
  changed_iff : ∀ place ∈ files, path place ∈ report.changed ↔
    path place ∉ report.failed.map Prod.fst ∧
      ∃ text, store.text? place = some text ∧ Source.formatText text ≠ text

theorem Report.Covers.fixed_iff {report : Report} {Refused : Place → Prop}
    (h : report.Covers store path files Refused) (hrefused : ∀ place ∈ files, ¬ Refused place) :
    report.failed = [] ∧ report.changed = [] ↔
      ∀ place ∈ files, ∃ text, store.text? place = some text ∧ Source.formatText text = text := by
  constructor
  · rintro ⟨hfailed, hchanged⟩ place hplace
    have hnot : path place ∉ report.failed.map Prod.fst := by
      rw [hfailed]
      exact List.not_mem_nil
    have hkept := mt (h.changed_iff place hplace).2 (hchanged ▸ List.not_mem_nil)
    cases htext : store.text? place with
    | none => exact absurd ((h.failed_iff place hplace).2 (.inl htext)) hnot
    | some text =>
      refine ⟨text, rfl, ?_⟩
      by_contra hne
      exact hkept ⟨hnot, text, htext, hne⟩
  · intro hfixed
    have hnot : ∀ place ∈ files, path place ∉ report.failed.map Prod.fst := by
      intro place hplace hmem
      obtain ⟨text, htext, -⟩ := hfixed place hplace
      rcases (h.failed_iff place hplace).1 hmem with hnone | hrefusal
      · rw [htext] at hnone
        cases hnone
      · exact hrefused place hplace hrefusal
    constructor
    · rw [← List.map_eq_nil_iff, List.eq_nil_iff_forall_not_mem]
      intro path' hmem
      obtain ⟨place, hplace, rfl⟩ := List.mem_map.1 (h.failed_sublist.subset hmem)
      exact hnot place hplace hmem
    · rw [List.eq_nil_iff_forall_not_mem]
      intro path' hmem
      obtain ⟨place, hplace, rfl⟩ := List.mem_map.1 (h.changed_sublist.subset hmem)
      obtain ⟨-, text, htext, hne⟩ := (h.changed_iff place hplace).1 hmem
      obtain ⟨text', htext', hsame⟩ := hfixed place hplace
      cases htext.symm.trans htext'
      exact hne hsame

theorem mem_map_filter_iff {p : Place → Bool} (hdistinct : (files.map path).Nodup) {place : Place}
    (hplace : place ∈ files) : path place ∈ (files.filter p).map path ↔ p place = true := by
  rw [List.mem_map]
  constructor
  · rintro ⟨other, hother, heq⟩
    rw [List.mem_filter] at hother
    rw [← List.inj_on_of_nodup_map hdistinct hother.1 hplace heq]
    exact hother.2
  · intro hp
    exact ⟨place, List.mem_filter.2 ⟨hplace, hp⟩, rfl⟩

theorem covers_reportOn (hdistinct : (files.map path).Nodup) :
    (reportOn path (Outcome.of checks refusal store) files).Covers store path files
      (Refused checks refusal store) := by
  have hfailed := map_fst_failed path (Outcome.of checks refusal store) files
  exact {
    checked := rfl
    failed_sublist := by
      rw [hfailed]
      exact List.filter_sublist.map path
    changed_sublist := List.filter_sublist.map path
    failed_iff := by
      intro place hplace
      rw [hfailed, mem_map_filter_iff hdistinct hplace]
      exact Outcome.becomes_of.isSome_fault?
    changed_iff := by
      intro place hplace
      rw [hfailed, mem_map_filter_iff hdistinct hplace, Bool.not_eq_true, reportOn,
        mem_map_filter_iff hdistinct hplace]
      exact Outcome.becomes_of.changes_iff }

/-- A file whose text is not replaced keeps its content. -/
theorem file?_afterAll_of_forall_ne {of : Place → Outcome} {place : Place}
    (h : place ∈ files → ∀ text, of place ≠ .replaced text) :
    (afterAll of store files).file? place = store.file? place := by
  induction files generalizing store with
  | nil => rfl
  | cons first files ih =>
    have hrest : (afterAll of ((of first).after store first) files).file? place =
        ((of first).after store first).file? place :=
      ih fun hplace => h (List.mem_cons_of_mem _ hplace)
    refine hrest.trans ?_
    by_cases heq : place = first
    · subst heq
      rw [Outcome.after_of_forall_ne store place (h List.mem_cons_self)]
    · exact Outcome.file?_after_of_ne _ _ heq

theorem file?_afterAll_of_eq {of : Place → Outcome} {place : Place} {text : String}
    (hplace : place ∈ files) (hne : place ≠ []) (h : of place = .replaced text) :
    (afterAll of store files).file? place = some text.toUTF8 := by
  induction files generalizing store with
  | nil => cases hplace
  | cons first files ih =>
    by_cases hrest : place ∈ files
    · exact ih hrest
    · obtain rfl := (List.mem_cons.1 hplace).resolve_right hrest
      have hkept : (afterAll of ((of place).after store place) files).file? place =
          ((of place).after store place).file? place :=
        file?_afterAll_of_forall_ne fun hmem => absurd hmem hrest
      refine hkept.trans ?_
      rw [h]
      exact Store.file?_put_file_self hne _

/-- Nothing changes if files are only checked. -/
theorem afterAll_of_checks : afterAll (Outcome.of true refusal store) store files = store := by
  have hkept : ∀ place,
      (Outcome.of true refusal store place).after store place = store := by
    intro place
    apply Outcome.after_of_forall_ne
    intro text hreplaced
    cases (Outcome.becomes_of.eq_replaced_iff.1 hreplaced).1
  generalize Outcome.of true refusal store = of at hkept
  induction files with
  | nil => rfl
  | cons place files ih =>
    rw [afterAll, List.foldl_cons, hkept]
    exact ih

/-- A file that changes gets its text formatted, which is another one. -/
theorem file?_afterAll_of_changes {place : Place} (hplace : place ∈ files)
    (hchanges : (Outcome.of false refusal store place).changes) :
    let after := afterAll (Outcome.of false refusal store) store files
    ∃ text, store.text? place = some text ∧
      after.file? place = some (Source.formatText text).toUTF8 ∧
      after.file? place ≠ store.file? place := by
  intro after
  obtain ⟨-, text, htext, hne⟩ := Outcome.becomes_of.changes_iff.1 hchanges
  have hreplaced := Outcome.becomes_of.eq_replaced_iff.2 ⟨rfl, hchanges, text, htext, rfl⟩
  have hnil : place ≠ [] := by
    rintro rfl
    cases Store.text?_eq_some_iff.1 htext
  have hfile : after.file? place = some (Source.formatText text).toUTF8 :=
    file?_afterAll_of_eq hplace hnil hreplaced
  refine ⟨text, htext, hfile, fun heq => hne ?_⟩
  rw [hfile, eq_comm, ← Store.text?_eq_some_iff, htext] at heq
  exact (Option.some.inj heq).symm

end report

/-- What refuses a file is the store that is left when the files before it have been formatted. -/
theorem refused_by_run {ε : Type} {patterns : List Glob}
    {replace : Path → String → Store.Change Unit}
    {refusal : Store → Place → String → Option Store.Fault} {session : Session}
    (htree : session.store.TreeAt root directory)
    (hreplace : Replaces replace root directory refusal) {earlier later : List Place}
    {place : Place}
    (hfiles : selectedWithin patterns session.store directory = earlier ++ place :: later) :
    refusals false refusal session.store (selectedWithin patterns session.store directory) place =
      refusal ((reformatFilesBy replace ⟨patterns, false⟩
        (earlier.map (pathWithin root directory)) : Task ε Report).run.run session).2.store
        place := by
  have hdistinct : (earlier ++ place :: later).Nodup := hfiles ▸ nodup_selectedWithin
  have hselected : ∀ other ∈ earlier, directory <+: other ∧ (session.store.file? other).isSome := by
    intro other hother
    have hmem : other ∈ selectedWithin patterns session.store directory :=
      hfiles ▸ List.mem_append_left _ hother
    obtain ⟨hbelow, hfile, -⟩ := (mem_selectedWithin htree).1 hmem
    exact ⟨hbelow, hfile⟩
  obtain ⟨log, hrun⟩ := @reformatFilesBy_run root directory patterns false replace refusal session ε
    hreplace earlier (List.nodup_append.1 hdistinct).1 htree hselected
  have hstore : afterAll (Outcome.of false (refusals false refusal session.store
        (earlier ++ place :: later)) session.store) session.store earlier =
      afterAll (Outcome.of false (refusals false refusal session.store earlier) session.store)
        session.store earlier :=
    afterAll_congr fun other hother => Outcome.of_congr rfl (refusals_append_left hother)
  rw [hrun, hfiles, refusals_eq hdistinct, hstore]

/-! ## The status -/

theorem status_eq_zero_iff {verbose checks : Bool} {texts : List String}
    {reformatting : Reformatting} {store : Store} {report : Report} {after : Session}
    (htexts : ofPatterns texts checks = .ok reformatting)
    (hrun : (reformatting.reformat root).run.run ⟨store, #[]⟩ = (.ok report, after)) :
    ((CommandLine.Invocation.mk verbose (.format root texts checks)).run store).1 = 0 ↔
      report.failed = [] ∧ (checks = true → report.changed = []) := by
  have hformat : ∃ after, (CommandLine.runFormat root texts checks).run.run ⟨store, #[]⟩ =
      (.ok (report.failed.isEmpty && !(checks && !report.changed.isEmpty)), after) := by
    rw [CommandLine.runFormat, lift_run, htexts]
    dsimp only
    rw [bind_run, hrun]
    exact ⟨_, tell_run⟩
  obtain ⟨after, hformat⟩ := hformat
  have hcommand : (CommandLine.Command.format root texts checks).run.run ⟨store, #[]⟩ =
      (⟨if report.failed.isEmpty && !(checks && !report.changed.isEmpty) then 0 else 1, none⟩,
        after) := by
    rw [CommandLine.Command.run, StateT.run_bind, hformat]
    cases report.failed.isEmpty && !(checks && !report.changed.isEmpty) <;> rfl
  rw [CommandLine.Invocation.run, hcommand]
  simp [Decidable.imp_iff_not_or]

/-- In a tree, the selected files and no others are looked at, each once. The report covers them,
whether they are only checked or also replaced; the files that are said to change are those that
change if they are replaced, and get their texts formatted. A file is refused if what replaces files
refuses it in the store that the files before it have left. -/
theorem reformat_tree (patterns : List Glob) (replace : Path → String → Store.Change Unit)
    (refusal : Store → Place → String → Option Store.Fault) (root : Path) (directory : Place)
    (session : Session) (htree : session.store.TreeAt root directory)
    (hreplace : Replaces replace root directory refusal) :
    let before := session.store
    let path := pathWithin root directory
    let run (checks : Bool) := (reformatBy replace ⟨patterns, checks⟩ root).run.run session
    let runFiles (checks : Bool) (files : List Place) :=
      (reformatFilesBy replace ⟨patterns, checks⟩ (files.map path) : Task Failure Report).run.run
        session
    let after := (run false).2.store
    ∃ (files : List Place) (refused : Place → String → Option Store.Fault) (report : Bool → Report),
      (∀ place, place ∈ files ↔ directory <+: place ∧ (before.file? place).isSome ∧
        ∃ name, place.getLast? = some name ∧ ∃ pattern ∈ patterns, pattern.matches name) ∧
      files.Nodup ∧ (∀ place ∈ files, before.locate (path place) = .ok place) ∧
      (∀ checks, run checks = runFiles checks files) ∧
      (∀ earlier place later, files = earlier ++ place :: later →
        refused place = refusal (runFiles false earlier).2.store place) ∧
      (∀ checks, (run checks).1 = .ok (report checks) ∧
        (report checks).Covers before path files (Refused checks refused before)) ∧
      (run true).2.store = before ∧
      (∀ place ∈ files, path place ∈ (report false).changed →
        ∃ text, before.text? place = some text ∧
          after.file? place = some (Source.formatText text).toUTF8 ∧
          after.file? place ≠ before.file? place) ∧
      (∀ place, (place ∈ files → path place ∉ (report false).changed) →
        after.file? place = before.file? place) ∧
      ((∀ place ∈ files, ¬ Refused false refused before place) → report false = report true) ∧
      ∀ verbose texts, ofPatterns texts true = .ok { patterns, checks := true } →
        (((CommandLine.Invocation.mk verbose (.format root texts true)).run before).1 = 0 ↔
          ∀ place ∈ files, ∃ text, before.text? place = some text ∧
            Source.formatText text = text) := by
  intro before path run runFiles after
  let files := selectedWithin patterns before directory
  let refused := refusals false refusal before files
  let of (checks : Bool) := Outcome.of checks refused before
  have hpaths : (files.map path).Nodup := nodup_map_selectedWithin htree
  have hrun : ∀ checks, ∃ log, run checks =
      (.ok (reportOn path (of checks) files), ⟨afterAll (of checks) before files, log⟩) := by
    intro checks
    have hof : Outcome.of checks (refusals checks refusal before files) before = of checks := by
      cases checks with
      | true => exact funext (Outcome.of_true_eq _ _ before)
      | false => rfl
    rw [← hof]
    exact reformatBy_tree_run htree hreplace
  have hafter : after = afterAll (of false) before files := by
    obtain ⟨log, hrun⟩ := hrun false
    exact congrArg (·.2.store) hrun
  have hchanged : ∀ {place}, place ∈ files →
      (path place ∈ (reportOn path (of false) files).changed ↔ (of false place).changes) :=
    mem_map_filter_iff hpaths
  refine ⟨files, refused, fun checks => reportOn path (of checks) files,
    fun place => mem_selectedWithin htree, nodup_selectedWithin,
    fun place hplace => locate_selected htree hplace, fun checks => reformatBy_run htree,
    fun earlier place later => refused_by_run htree hreplace, ?_, ?_, ?_, ?_, ?_, ?_⟩
  · intro checks
    obtain ⟨log, hrun⟩ := hrun checks
    exact ⟨congrArg Prod.fst hrun, covers_reportOn hpaths⟩
  · obtain ⟨log, hrun⟩ := hrun true
    exact (congrArg (·.2.store) hrun).trans afterAll_of_checks
  · intro place hplace hmem
    rw [hafter]
    exact file?_afterAll_of_changes hplace ((hchanged hplace).1 hmem)
  · intro place hmem
    rw [hafter]
    apply file?_afterAll_of_forall_ne
    intro hplace text hreplaced
    have hchanges := (Outcome.becomes_of.eq_replaced_iff.1 hreplaced).2.1
    exact hmem hplace ((hchanged hplace).2 hchanges)
  · intro hrefused
    exact reportOn_congr fun place hplace => Outcome.result_of_false (hrefused place hplace)
  · intro verbose texts htexts
    obtain ⟨log, hrun⟩ := @reformatBy_tree_run root directory patterns true _ _ ⟨before, #[]⟩ htree
      (replaces_replace root directory)
    rw [status_eq_zero_iff htexts hrun]
    simp only [forall_const]
    apply (covers_reportOn hpaths).fixed_iff
    rintro place - ⟨hchecks, -⟩
    cases hchecks

/-! ## A file that is not as it should be -/

/-- A directory with one file, in which a line ends in blanks. -/
def untidy : Store :=
  ⟨.ofList [(["d"], .directory), (["d", "a.c"], .file "int x;  \n".toUTF8)], []⟩

theorem eq_of_find?_untidy {place : Place} {name : String} (hbelow : ["d"] <+: place)
    (h : (untidy.find? (place ++ [name])).isSome) : place = ["d"] ∧ name = "a.c" := by
  obtain ⟨names, rfl⟩ := hbelow
  obtain ⟨entry, hentry⟩ := Option.isSome_iff_exists.1 h
  have hmem : (["d"] ++ names ++ [name], entry) ∈
      [(["d"], .directory), (["d", "a.c"], .file "int x;  \n".toUTF8)] :=
    Entries.mem_of_lookup hentry
  obtain ⟨⟨rfl, rfl⟩, -⟩ : (names = [] ∧ name = "a.c") ∧ _ := by
    simpa [List.append_eq_cons_iff] using hmem
  exact ⟨rfl, rfl⟩

theorem locate_untidy : untidy.locate ⟨"d"⟩ = .ok ["d"] := by
  have hroute : (Path.mk "d").route = ⟨false, [.name "d"]⟩ := by decide +kernel
  rw [Store.locate, hroute, Store.locateRoute]
  simp [Store.isForbidden]
  rfl

theorem treeAt_untidy : untidy.TreeAt ⟨"d"⟩ ["d"] where
  locate := locate_untidy
  found := rfl
  around place name hbelow h := by
    obtain ⟨rfl, rfl⟩ := eq_of_find?_untidy hbelow h
    rfl
  named place name hbelow h := by
    obtain ⟨rfl, rfl⟩ := eq_of_find?_untidy hbelow h
    exact {
      ne_nil := by decide
      slash := by decide
      ne_current := by decide
      ne_parent := by decide
      allowed := by simp [Store.isForbidden]
      size := by decide }
  listed := rfl

theorem exists_ofPatterns_default : ∃ patterns,
    ofPatterns [] true = .ok { patterns, checks := true } ∧
      ∃ pattern ∈ patterns, pattern.matches "a.c" := by
  have hmatches : (readPatterns defaultPatterns).toOption.any
      (fun patterns => patterns.any (·.matches "a.c")) = true := by decide +kernel
  cases hpatterns : readPatterns defaultPatterns with
  | error failure =>
    rw [hpatterns] at hmatches
    cases hmatches
  | ok patterns =>
    rw [hpatterns] at hmatches
    refine ⟨patterns, ?_, List.any_eq_true.1 hmatches⟩
    rw [ofPatterns, List.isEmpty_nil, if_pos rfl, hpatterns]
    rfl

/-- The blanks at the end of one line are enough for the check to fail. -/
theorem reformat_tree_untidy :
    untidy.TreeAt ⟨"d"⟩ ["d"] ∧ Replaces Store.replace ⟨"d"⟩ ["d"] (fun _ _ _ => none) ∧
      ((CommandLine.Invocation.mk false (.format ⟨"d"⟩ [] true)).run untidy).1 ≠ 0 := by
  have htree := treeAt_untidy
  have hreplace := replaces_replace ⟨"d"⟩ ["d"]
  obtain ⟨patterns, hpatterns, hmatches⟩ := exists_ofPatterns_default
  obtain ⟨files, refused, report, hfiles, -, -, -, -, -, -, -, -, -, hstatus⟩ :=
    reformat_tree patterns Store.replace _ ⟨"d"⟩ ["d"] ⟨untidy, #[]⟩ htree hreplace
  refine ⟨htree, hreplace, ?_⟩
  rw [ne_eq, hstatus false [] hpatterns]
  intro hfixed
  have hmem : ["d", "a.c"] ∈ files := (hfiles _).2 ⟨⟨["a.c"], rfl⟩, rfl, "a.c", rfl, hmatches⟩
  obtain ⟨text, htext, hsame⟩ := hfixed _ hmem
  have hcontent : untidy.text? ["d", "a.c"] = some "int x;  \n" := Store.text?_eq_some_iff.2 rfl
  cases hcontent.symm.trans htext
  have hne : Source.formatText "int x;  \n" ≠ "int x;  \n" := by decide +kernel
  exact hne hsame

end Reformatting

end Stencil
