import Mathlib.Data.List.Nodup
import Stencil.Proofs.Session
import Stencil.Proofs.Store.Temporary
import Stencil.Reformatting

/-!
# Reformatting the files of a tree

Formatting a file of a tree changes this file at most, and the tree stays one. So the files of a
tree are formatted one after the other as each would be alone (`reformatFilesBy_run`), and to
reformat a directory does this to the files within it that are selected (`reformatBy_run`).

How a file is replaced is left open but for what can be relied on: it gets the text, or it is
refused and all stays as it is (`Replaces`). In a tree the program's own way is never refused
(`replaces_replace`), and through a temporary file it is refused if the system finds a fault,
whatever the system (`replaces_replaceThrough`).
-/

namespace Stencil

namespace Reformatting

open Stencil.Task (store_run tell_run attempt_run replaceFileBy_run)

variable {root : Path} {directory : Place}

/-- In a tree, a file is replaced by one with the text, or that is refused and all stays as it
is. -/
def Replaces (replace : Path → String → Store.Change Unit) (root : Path) (directory : Place)
    (refusal : Store → Place → String → Option Store.Fault) : Prop :=
  ∀ (store : Store) (place : Place) (text : String), store.TreeAt root directory →
    directory <+: place → (store.file? place).isSome →
    (replace (pathWithin root directory place) text).run.run store =
      match refusal store place text with
      | some fault => (.error fault, store)
      | none => (.ok (), store.put place (.file text.toUTF8))

theorem pathWithin_append (root : Path) (directory names : Place) :
    pathWithin root directory (directory ++ names) = root.joinNames names := by
  rw [pathWithin, List.drop_left]

theorem locate_pathWithin {store : Store} (htree : store.TreeAt root directory) {place : Place}
    (hbelow : directory <+: place) (hfile : (store.file? place).isSome) :
    store.locate (pathWithin root directory place) = .ok place := by
  obtain ⟨names, rfl⟩ := hbelow
  rw [pathWithin_append]
  exact htree.locate_file hfile

theorem replaces_replace (root : Path) (directory : Place) :
    Replaces Store.replace root directory fun _ _ _ => none := by
  rintro store _ text htree ⟨names, rfl⟩ hfile
  rw [pathWithin_append]
  exact htree.replace_joinNames hfile text

/-- Whatever the system refuses, and in whichever stores. -/
theorem replaces_replaceThrough (system : Store.System) (root : Path) (directory : Place) :
    Replaces (Store.replaceThrough system) root directory system.fault? := by
  rintro store _ text htree ⟨names, rfl⟩ hfile
  obtain ⟨way, parent, name, hreceives, hplace⟩ := htree.exists_receives hfile
  rw [pathWithin_append, hplace]
  exact hreceives.replaceThrough_run system text

/-! ## One file -/

/-- What becomes of a file. -/
inductive Outcome where
  /-- It cannot be formatted. -/
  | failed (fault : Store.Fault)
  /-- It is as it should be. -/
  | kept
  /-- It was only checked, and would change. -/
  | noted
  /-- It has got the text. -/
  | replaced (text : String)

namespace Outcome

/-- What becomes of the file at a place, which depends on nothing but its content. -/
def of (checks : Bool) (refusal : Place → String → Option Store.Fault) (store : Store)
    (place : Place) : Outcome :=
  match store.text? place with
  | none => .failed .invalidData
  | some text =>
    let formatted := Source.formatText text
    if formatted = text then .kept
    else if checks then .noted
    else
      match refusal place formatted with
      | some fault => .failed fault
      | none => .replaced formatted

/-- What formatting the file comes to. -/
@[simp] def result : Outcome → Except Store.Fault Bool
  | failed fault => .error fault
  | kept => .ok false
  | noted | replaced _ => .ok true

/-- Why the file cannot be formatted. -/
def fault? (outcome : Outcome) : Option Store.Fault :=
  match outcome.result with
  | .error fault => some fault
  | .ok _ => none

/-- Whether the file changes, or would if it were not only checked. -/
def changes (outcome : Outcome) : Bool :=
  match outcome.result with
  | .error _ => false
  | .ok changes => changes

/-- The store afterwards. -/
def after (store : Store) (place : Place) : Outcome → Store
  | replaced text => store.put place (.file text.toUTF8)
  | _ => store

theorem of_congr {checks : Bool} {refusal refusal' : Place → String → Option Store.Fault}
    {store store' : Store} {place : Place} (hfile : store'.file? place = store.file? place)
    (hrefusal : refusal' place = refusal place) :
    of checks refusal' store' place = of checks refusal store place := by
  rw [of, of, Store.text?, hfile, hrefusal, Store.text?]

/-- Nothing is refused if files are only checked. -/
theorem of_true_eq (refusal refusal' : Place → String → Option Store.Fault) (store : Store)
    (place : Place) : of true refusal store place = of true refusal' store place := by
  rw [of, of]
  cases store.text? place <;> rfl

theorem file?_after_of_ne (outcome : Outcome) (store : Store) {place other : Place}
    (h : other ≠ place) : (outcome.after store place).file? other = store.file? other := by
  cases outcome with
  | replaced text => exact Store.file?_put_file_of_ne h _
  | _ => rfl

theorem after_of_forall_ne {outcome : Outcome} (store : Store) (place : Place)
    (h : ∀ text, outcome ≠ .replaced text) : outcome.after store place = store := by
  cases outcome with
  | replaced text => exact absurd rfl (h text)
  | _ => rfl

theorem treeAt_after (outcome : Outcome) {store : Store} {place : Place}
    (h : store.TreeAt root directory) (hfile : (store.file? place).isSome) :
    (outcome.after store place).TreeAt root directory := by
  cases outcome with
  | replaced text => exact h.put_file hfile _
  | _ => exact h

end Outcome

section run

variable {patterns : List Glob} {checks : Bool} {replace : Path → String → Store.Change Unit}
  {refusal : Store → Place → String → Option Store.Fault} {session : Session}

theorem reformatFileBy_run (hreplace : Replaces replace root directory refusal) {place : Place}
    (htree : session.store.TreeAt root directory) (hbelow : directory <+: place)
    (hfile : (session.store.file? place).isSome) :
    let outcome := Outcome.of checks (refusal session.store) session.store place
    ∃ log, (reformatFileBy replace ⟨patterns, checks⟩ (pathWithin root directory place)).run.run
        session = (outcome.result, ⟨outcome.after session.store place, log⟩) := by
  intro outcome
  rw [reformatFileBy, store_run, Store.read_eq (locate_pathWithin htree hbelow hfile) hfile]
  simp only [outcome, Outcome.of]
  cases session.store.text? place with
  | none => exact ⟨session.log, rfl⟩
  | some text =>
    dsimp only
    split
    · exact ⟨_, tell_run⟩
    · split
      · exact ⟨_, tell_run⟩
      · obtain ⟨log, hrun⟩ := replaceFileBy_run replace (pathWithin root directory place)
          (Source.formatText text) session
        rw [hreplace session.store place (Source.formatText text) htree hbelow hfile] at hrun
        rw [bind_run, hrun]
        cases refusal session.store place (Source.formatText text) with
        | some fault => exact ⟨log, rfl⟩
        | none => exact ⟨_, tell_run⟩

/-! ## All files -/

/-- The report on files that has come of what became of them. -/
def reportOn (path : Place → Path) (of : Place → Outcome) (files : List Place) : Report where
  checked := files.length
  changed := (files.filter fun place => (of place).changes).map path
  failed := files.filterMap fun place => (of place).fault?.map fun fault => (path place, fault)

/-- Why files are refused, each of them in the store that those before it have left. -/
def refusals (checks : Bool) (refusal : Store → Place → String → Option Store.Fault) :
    Store → List Place → Place → String → Option Store.Fault
  | _, [], _ => fun _ => none
  | store, place :: files, other =>
    if other = place then refusal store place
    else
      let outcome := Outcome.of checks (refusal store) store place
      refusals checks refusal (outcome.after store place) files other

/-- The store in which has become of files what was to become of them. -/
def afterAll (of : Place → Outcome) (store : Store) (files : List Place) : Store :=
  files.foldl (fun store place => (of place).after store place) store

theorem reportOn_congr {path : Place → Path} {of of' : Place → Outcome} {files : List Place}
    (h : ∀ place ∈ files, (of place).result = (of' place).result) :
    reportOn path of files = reportOn path of' files := by
  have hchanges : ∀ place ∈ files, (of place).changes = (of' place).changes :=
    fun place hplace => by rw [Outcome.changes, Outcome.changes, h place hplace]
  have hfault : ∀ place ∈ files, (of place).fault? = (of' place).fault? :=
    fun place hplace => by rw [Outcome.fault?, Outcome.fault?, h place hplace]
  rw [reportOn, reportOn, List.filter_congr hchanges,
    List.filterMap_congr fun place hplace => by rw [hfault place hplace]]

theorem afterAll_congr {store : Store} {of of' : Place → Outcome} {files : List Place}
    (h : ∀ place ∈ files, of place = of' place) :
    afterAll of store files = afterAll of' store files :=
  List.foldl_ext _ _ _ fun _ place hplace => by rw [h place hplace]

theorem reportOn_cons (path : Place → Path) (of : Place → Outcome) (place : Place)
    (files : List Place) :
    reportOn path of (place :: files) =
      let report := reportOn path of files
      let checked := report.checked + 1
      match of place with
      | .failed fault => { report with checked, failed := (path place, fault) :: report.failed }
      | .kept => { report with checked }
      | .noted | .replaced _ =>
        { report with checked, changed := path place :: report.changed } := by
  cases houtcome : of place <;>
    simp [reportOn, houtcome, Outcome.changes, Outcome.fault?]

/-- After the first file the others are formatted, and its result stands before theirs. -/
theorem reformatFilesBy_cons_run {ε : Type} {reformatting : Reformatting} {path : Place → Path}
    {of : Place → Outcome} {place : Place} {files : List Place} {after : Store} {log : Log}
    (hfile : (reformatting.reformatFileBy replace (path place)).run.run session =
      ((of place).result, ⟨after, log⟩)) :
    ∃ log', ∀ final,
      (reformatting.reformatFilesBy replace (files.map path) :
            Task ε Report).run.run ⟨after, log'⟩ = (.ok (reportOn path of files), final) →
        (reformatting.reformatFilesBy replace ((place :: files).map path) :
            Task ε Report).run.run session = (.ok (reportOn path of (place :: files)), final) := by
  rw [List.map_cons, reformatFilesBy, attempt_run, hfile, reportOn_cons]
  cases of place with
  | failed fault =>
    refine ⟨log.push ⟨.error, .reformatting,
      "Unable to format: " ++ (path place).text ++ " with error: " ++ Message.file fault⟩, ?_⟩
    intro final hrest
    dsimp only [Outcome.result]
    rw [tell_run, bind_run, hrest]
    rfl
  | kept | noted | replaced =>
    refine ⟨log, fun final hrest => ?_⟩
    dsimp only [Outcome.result]
    rw [bind_run, hrest]
    rfl

section refusals

variable {store : Store} {place other : Place} {files : List Place}

theorem of_refusals_self :
    Outcome.of checks (refusals checks refusal store (place :: files)) store place =
      Outcome.of checks (refusal store) store place :=
  Outcome.of_congr rfl (if_pos rfl)

/-- What becomes of the other files is the same after the first one has been formatted. -/
theorem of_refusals_of_ne (h : other ≠ place) :
    let after := (Outcome.of checks (refusal store) store place).after store place
    Outcome.of checks (refusals checks refusal after files) after other =
      Outcome.of checks (refusals checks refusal store (place :: files)) store other :=
  Outcome.of_congr (Outcome.file?_after_of_ne _ _ h) (if_neg h).symm

/-- What comes after a file has no part in whether it is refused. -/
theorem refusals_append_left {later : List Place} (h : other ∈ files) :
    refusals checks refusal store (files ++ later) other =
      refusals checks refusal store files other := by
  induction files generalizing store with
  | nil => cases h
  | cons first files ih =>
    rw [List.cons_append, refusals, refusals]
    by_cases heq : other = first
    · rw [if_pos heq, if_pos heq]
    · rw [if_neg heq, if_neg heq]
      exact ih ((List.mem_cons.1 h).resolve_left heq)

/-- A file is refused by the store that the files before it have left. -/
theorem refusals_eq {earlier later : List Place} (hdistinct : (earlier ++ place :: later).Nodup) :
    let refused := refusals checks refusal store (earlier ++ place :: later)
    refused place = refusal (afterAll (Outcome.of checks refused store) store earlier) place := by
  intro refused
  induction earlier generalizing store with
  | nil => exact if_pos rfl
  | cons first earlier ih =>
    obtain ⟨hfresh, hrest⟩ := List.nodup_cons.1 hdistinct
    have hne : ∀ other ∈ earlier ++ place :: later, other ≠ first := by
      rintro other hother rfl
      exact hfresh hother
    let after := (Outcome.of checks (refusal store) store first).after store first
    have hfirst : Outcome.of checks refused store first =
        Outcome.of checks (refusal store) store first := of_refusals_self
    have hafter : afterAll (Outcome.of checks refused store) store (first :: earlier) =
        afterAll (Outcome.of checks refused store) after earlier := by
      rw [afterAll, List.foldl_cons, hfirst]
      rfl
    have hrefused : refused place =
        refusals checks refusal after (earlier ++ place :: later) place :=
      if_neg (hne place (by simp))
    rw [hafter, hrefused, ih hrest]
    congr 1
    exact afterAll_congr fun other hother =>
      of_refusals_of_ne (hne other (List.mem_append_left _ hother))

end refusals

theorem reformatFilesBy_run {ε : Type} (hreplace : Replaces replace root directory refusal)
    {files : List Place} (hdistinct : files.Nodup) (htree : session.store.TreeAt root directory)
    (hfiles : ∀ place ∈ files, directory <+: place ∧ (session.store.file? place).isSome) :
    let of := Outcome.of checks (refusals checks refusal session.store files) session.store
    let path := pathWithin root directory
    ∃ log, (reformatFilesBy replace ⟨patterns, checks⟩ (files.map path) : Task ε Report).run.run
        session = (.ok (reportOn path of files), ⟨afterAll of session.store files, log⟩) := by
  intro of path
  -- The first file changes alone, so for the others all is as it was.
  induction files generalizing session with
  | nil => exact ⟨session.log, rfl⟩
  | cons place files ih =>
    obtain ⟨hfresh, hdistinct⟩ := List.nodup_cons.1 hdistinct
    obtain ⟨hbelow, hfile⟩ := hfiles place List.mem_cons_self
    have hne : ∀ other ∈ files, other ≠ place := by
      rintro other hother rfl
      exact hfresh hother
    have hof : of place = Outcome.of checks (refusal session.store) session.store place :=
      of_refusals_self
    obtain ⟨log, hrun⟩ :=
      @reformatFileBy_run _ _ patterns checks _ _ _ hreplace _ htree hbelow hfile
    rw [← hof] at hrun
    obtain ⟨log', hcons⟩ := @reformatFilesBy_cons_run _ _ ε _ path of place files _ _ hrun
    have hrest := @ih ⟨(of place).after session.store place, log'⟩ hdistinct
      ((of place).treeAt_after htree hfile) fun other hother => by
        rw [Outcome.file?_after_of_ne _ _ (hne other hother)]
        exact hfiles other (List.mem_cons_of_mem _ hother)
    obtain ⟨log'', hrest⟩ := hrest
    have hothers : ∀ other ∈ files,
        Outcome.of checks (refusals checks refusal ((of place).after session.store place) files)
          ((of place).after session.store place) other = of other := by
      rw [hof]
      exact fun other hother => of_refusals_of_ne (hne other hother)
    rw [reportOn_congr fun other hother => by rw [hothers other hother], afterAll_congr hothers]
      at hrest
    exact ⟨log'', hcons _ hrest⟩

/-! ## The selected files -/

/-- Whether a place is selected by the name that it ends with. -/
def isSelected (patterns : List Glob) (place : Place) : Bool :=
  place.getLast?.any fun name => patterns.any (·.matches name)

/-- The places of the selected files within a directory, in the order of names. -/
def selectedWithin (patterns : List Glob) (store : Store) (directory : Place) : List Place :=
  (store.filesWithin directory).filter (isSelected patterns)

theorem mem_selectedWithin {store : Store} (htree : store.TreeAt root directory) {place : Place} :
    place ∈ selectedWithin patterns store directory ↔
      directory <+: place ∧ (store.file? place).isSome ∧
        ∃ name, place.getLast? = some name ∧ ∃ pattern ∈ patterns, pattern.matches name := by
  rw [selectedWithin, List.mem_filter, Store.mem_filesWithin htree.listed, isSelected,
    Option.any_eq_true, and_assoc]
  simp only [List.any_eq_true]

theorem locate_selected {store : Store} (htree : store.TreeAt root directory) {place : Place}
    (hplace : place ∈ selectedWithin patterns store directory) :
    store.locate (pathWithin root directory place) = .ok place := by
  obtain ⟨hbelow, hfile, -⟩ := (mem_selectedWithin htree).1 hplace
  exact locate_pathWithin htree hbelow hfile

theorem nodup_selectedWithin {store : Store} :
    (selectedWithin patterns store directory).Nodup :=
  (Store.nodup_filesWithin store directory).filter _

/-- Different files have different paths, for these lead to them. -/
theorem nodup_map_selectedWithin {store : Store} (htree : store.TreeAt root directory) :
    ((selectedWithin patterns store directory).map (pathWithin root directory)).Nodup := by
  apply nodup_selectedWithin.map_on
  intro place hplace other hother heq
  have hlocate := locate_selected htree hother
  rw [← heq, locate_selected htree hplace] at hlocate
  exact Except.ok.inj hlocate

theorem reformatBy_run (htree : session.store.TreeAt root directory) :
    (reformatBy replace ⟨patterns, checks⟩ root).run.run session =
      (reformatFilesBy replace ⟨patterns, checks⟩
        ((selectedWithin patterns session.store directory).map
          (pathWithin root directory))).run.run session := by
  have hcontains : session.store.contains root = true := by
    rw [Store.contains, htree.locate]
    rfl
  have hdirectory : session.store.hasFile root = false := by
    rw [Store.hasFile, Store.get?, htree.locate]
    dsimp only
    rw [htree.found]
  have hfiles : (filesBelow session.store root).filter (selects ⟨patterns, checks⟩) =
      (selectedWithin patterns session.store directory).map (pathWithin root directory) := by
    rw [filesBelow, htree.locate]
    dsimp only
    rw [List.filter_map, selectedWithin]
    congr 1
    apply List.filter_congr
    intro place hplace
    obtain ⟨⟨names, rfl⟩, hfile⟩ := (Store.mem_filesWithin htree.listed).1 hplace
    rw [Function.comp_apply, selects, pathWithin_append, htree.fileName?_joinNames hfile,
      isSelected]
  rw [reformatBy, store_run, hcontains, hdirectory, hfiles]
  rfl

theorem reformatBy_tree_run (htree : session.store.TreeAt root directory)
    (hreplace : Replaces replace root directory refusal) :
    let path := pathWithin root directory
    let files := selectedWithin patterns session.store directory
    let of := Outcome.of checks (refusals checks refusal session.store files) session.store
    ∃ log, (reformatBy replace ⟨patterns, checks⟩ root).run.run session =
      (.ok (reportOn path of files), ⟨afterAll of session.store files, log⟩) := by
  intro path files of
  have hfiles : ∀ place ∈ files, directory <+: place ∧ (session.store.file? place).isSome := by
    intro place hplace
    obtain ⟨hbelow, hfile, -⟩ := (mem_selectedWithin htree).1 hplace
    exact ⟨hbelow, hfile⟩
  obtain ⟨log, hrun⟩ := reformatFilesBy_run hreplace nodup_selectedWithin htree hfiles
  exact ⟨log, (reformatBy_run htree).trans hrun⟩

end run

end Reformatting

end Stencil
