import Stencil.Proofs.Generation.Text
import Stencil.Proofs.Store.Temporary

/-!
# Writing files one after the other

A file is put where its path leads, or no file changes (`putsOrKeeps_replaceThrough`). Files are
written in turn up to the first that cannot be, and what is written stays, but for what is written
over it (`putsInTurn_persistThrough`). Several paths may lead to one place, and a file may take the
place of a link on a way, so in the end a text need not be where its path leads
(`text_not_where_path_leads`).

Nothing of this asks the system to be reliable. So main operations are handled one by one, and their
texts come to files, whatever fails for a write (`handles_through`, `makes_text_through`).
-/

namespace Stencil

namespace Store

/-- A file that was written, the place where its path led, and the links on the way. -/
structure Writing where
  file : Output.File
  place : Place
  links : List Place

/-- Once the directories are made, the path of the file leads to the place along the links, and
there the file is put. -/
def Writes (before : Store) (writing : Writing) (after : Store) : Prop :=
  let path := writing.file.path
  let prepared := before.prepared path
  ∃ way parent name, prepared.Receives path way parent name ∧
    prepared.Leads writing.links maxLinks (if path.isAbsolute then [] else prepared.working) way
      parent ∧
    parent ++ [name] = writing.place ∧
    prepared.put writing.place (.file writing.file.text.toUTF8) = after

/-- The files are written one after the other. -/
inductive WritesAll : Store → List Writing → Store → Prop where
  | nil {store} : WritesAll store [] store
  | cons {before middle after writing writings} : Writes before writing middle →
    WritesAll middle writings after → WritesAll before (writing :: writings) after

/-- The path of the file leads to the place along the links, and there the file is. -/
structure Holds (store : Store) (writing : Writing) : Prop where
  spelled : writing.file.path.text.isEmpty = false
  allowed : writing.file.path.route.steps.any isForbidden = false
  leads : store.Leads writing.links maxLinks
    (if writing.file.path.isAbsolute then [] else store.working) writing.file.path.route.steps
    writing.place
  found : store.find? writing.place = some (.file writing.file.text.toUTF8)

variable {before middle after : Store} {writing other : Writing}

namespace Holds

theorem read (h : after.Holds writing) : after.read writing.file.path = .ok writing.file.text := by
  refine read_eq_ok ?_ h.found
  rw [locate, h.spelled, if_neg Bool.false_ne_true, locateRoute_eq_ok_iff]
  exact ⟨h.allowed, _, h.leads⟩

theorem of_extends (h : before.Holds writing) (hextends : before.Extends after) :
    after.Holds writing where
  spelled := h.spelled
  allowed := h.allowed
  leads := by
    rw [hextends.working]
    exact h.leads.mono hextends.find?
  found := hextends.find? h.found

/-- What is written elsewhere, and instead of no link on the way, leaves the file where it is. -/
theorem put {spot : Place} (h : before.Holds writing) (hplace : spot ≠ writing.place)
    (hlinks : spot ∉ writing.links) (hspot : before.find? spot ≠ some .directory) (entry : Entry) :
    (before.put spot entry).Holds writing where
  spelled := h.spelled
  allowed := h.allowed
  leads := h.leads.of_agrees (fun _ => find?_put_of_ne _ _) hplace.symm hspot hlinks
  found := by rw [find?_put_of_ne _ _ hplace.symm, h.found]

end Holds

namespace Writes

theorem place_ne_nil (h : Writes before writing after) : writing.place ≠ [] := by
  obtain ⟨way, parent, name, -, -, hplace, -⟩ := h
  rw [← hplace]
  exact List.append_ne_nil_of_right_ne_nil _ (List.cons_ne_nil _ _)

theorem file?_self (h : Writes before writing after) :
    after.file? writing.place = some writing.file.text.toUTF8 := by
  have hne := h.place_ne_nil
  obtain ⟨way, parent, name, -, -, -, rfl⟩ := h
  exact file?_put_file_self hne _

theorem file?_of_ne (h : Writes before writing after) {place : Place}
    (hplace : writing.place ≠ place) :
    after.file? place = before.file? place := by
  obtain ⟨way, parent, name, -, -, -, rfl⟩ := h
  rw [file?_put_file_of_ne hplace.symm, file?_prepared]

theorem holds (h : Writes before writing after) (hlinks : writing.place ∉ writing.links) :
    after.Holds writing := by
  have hne := h.place_ne_nil
  obtain ⟨way, parent, name, hreceives, hleads, hplace, rfl⟩ := h
  rw [← hplace] at hlinks hne ⊢
  exact {
    spelled := hreceives.text_ne_empty
    allowed := hreceives.allowed_route
    leads := hplace ▸ hreceives.leads_put hleads hlinks _
    found := hplace ▸ find?_put_self _ _ hne }

theorem holds_other (h : Writes before other after) (hbefore : before.Holds writing)
    (hplace : other.place ≠ writing.place) (hlinks : other.place ∉ writing.links) :
    after.Holds writing := by
  obtain ⟨way, parent, name, hreceives, -, heq, rfl⟩ := h
  apply (hbefore.of_extends (extends_prepared _ _)).put hplace hlinks
  rw [← heq]
  exact hreceives.free

end Writes

namespace WritesAll

variable {writings later : List Writing}

theorem file?_of_ne (h : WritesAll before writings after) {place : Place}
    (hplace : ∀ writing ∈ writings, writing.place ≠ place) :
    after.file? place = before.file? place := by
  induction h with
  | nil => rfl
  | cons hfirst _ ih =>
    rw [List.forall_mem_cons] at hplace
    rw [ih hplace.2, hfirst.file?_of_ne hplace.1]

theorem holds (h : WritesAll before writings after) (hbefore : before.Holds writing)
    (hplace : ∀ other ∈ writings, other.place ≠ writing.place)
    (hlinks : ∀ other ∈ writings, other.place ∉ writing.links) : after.Holds writing := by
  induction h with
  | nil => exact hbefore
  | cons hfirst _ ih =>
    rw [List.forall_mem_cons] at hplace hlinks
    exact ih (hfirst.holds_other hbefore hplace.1 hlinks.1) hplace.2 hlinks.2

theorem exists_of_append (h : WritesAll before (writings ++ later) after) :
    ∃ middle, WritesAll before writings middle ∧ WritesAll middle later after := by
  induction writings generalizing before with
  | nil => exact ⟨before, .nil, h⟩
  | cons writing writings ih =>
    cases h with
    | cons hfirst hrest =>
      obtain ⟨middle, hwritings, hlater⟩ := ih hrest
      exact ⟨middle, .cons hfirst hwritings, hlater⟩

/-- The last file that is written at a place is there in the end. -/
theorem file?_last (h : WritesAll before (writings ++ writing :: later) after)
    (hplace : ∀ other ∈ later, other.place ≠ writing.place) :
    after.file? writing.place = some writing.file.text.toUTF8 := by
  obtain ⟨middle, -, hrest⟩ := h.exists_of_append
  cases hrest with
  | cons hfirst hlater => rw [hlater.file?_of_ne hplace, hfirst.file?_self]

/-- The path of the last file that is written at a place still leads there, unless from then on a
file took the place of a link on the way. -/
theorem holds_last (h : WritesAll before (writings ++ writing :: later) after)
    (hplace : ∀ other ∈ later, other.place ≠ writing.place)
    (hlinks : ∀ other ∈ writing :: later, other.place ∉ writing.links) : after.Holds writing := by
  obtain ⟨middle, -, hrest⟩ := h.exists_of_append
  rw [List.forall_mem_cons] at hlinks
  cases hrest with
  | cons hfirst hlater => exact hlater.holds (hfirst.holds hlinks.1) hplace hlinks.2

end WritesAll

/-! ## Runs -/

/-- Either the file is put where its path leads, and its path leads there still unless the file took
the place of a link on the way, or no file changes. -/
def PutsOrKeeps (change : Change Unit) (file : Output.File) : Prop :=
  ∀ store : Store, ∃ result after, change.run.run store = (result, after) ∧
    match result with
    | .error _ => ∀ place, after.file? place = store.file? place
    | .ok () => ∃ place links, Writes store ⟨file, place, links⟩ after ∧
      after.file? place = some file.text.toUTF8 ∧
      (∀ other, other ≠ place → after.file? other = store.file? other) ∧
      (place ∉ links → after.read file.path = .ok file.text)

/-- The files are written one after the other, all of them or those before one that cannot be, and
no other file changes. At each place there is the last file that was written there, and its path
leads there still unless from then on a file took the place of a link on the way. -/
def PutsInTurn (change : Change Unit) (files : List Output.File) : Prop :=
  ∀ store : Store, ∃ writings middle result after, change.run.run store = (result, after) ∧
    WritesAll store writings middle ∧ middle.Extends after ∧
    (match result with
      | .ok () => files = writings.map Writing.file
      | .error _ => ∃ file rest, files = writings.map Writing.file ++ file :: rest) ∧
    (∀ place, (∀ writing ∈ writings, writing.place ≠ place) →
      after.file? place = store.file? place) ∧
    ∀ earlier writing later, writings = earlier ++ writing :: later →
      (∀ other ∈ later, other.place ≠ writing.place) →
      after.file? writing.place = some writing.file.text.toUTF8 ∧
        ((∀ other ∈ writing :: later, other.place ∉ writing.links) →
          after.read writing.file.path = .ok writing.file.text)

theorem replaceThrough_writes (system : System) (file : Output.File) (store : Store) :
    (∃ fault, (replaceThrough system file.path file.text).run.run store =
        (.error fault, store.prepared file.path)) ∨
      ∃ place links after, Writes store ⟨file, place, links⟩ after ∧
        (replaceThrough system file.path file.text).run.run store = (.ok (), after) := by
  refine (replaceThrough_cases system file.path file.text store).imp_right ?_
  rintro ⟨way, parent, name, hreceives, hrun⟩
  obtain ⟨links, hleads⟩ := hreceives.exists_leads
  exact ⟨_, links, _, ⟨way, parent, name, hreceives, hleads, rfl, rfl⟩, hrun⟩

theorem putsOrKeeps_replaceThrough (system : System) (path : Path) (text : String) :
    PutsOrKeeps (replaceThrough system path text) ⟨path, text⟩ := by
  intro store
  obtain ⟨fault, hrun⟩ | ⟨place, links, after, hwrites, hrun⟩ :=
    replaceThrough_writes system ⟨path, text⟩ store
  · exact ⟨_, _, hrun, file?_prepared store path⟩
  · refine ⟨_, after, hrun, place, links, hwrites, hwrites.file?_self, ?_, ?_⟩
    · exact fun other hne => hwrites.file?_of_ne hne.symm
    · exact fun hlinks => (hwrites.holds hlinks).read

/-- For the file that cannot be written only directories are made. -/
theorem forM_replaceThrough (system : System) (files : List Output.File) (store : Store) :
    ∃ writings middle result after,
      (files.forM fun file => replaceThrough system file.path file.text).run.run store =
        (result, after) ∧
      WritesAll store writings middle ∧ middle.Extends after ∧
      match result with
      | .ok () => files = writings.map Writing.file
      | .error _ => ∃ file rest, files = writings.map Writing.file ++ file :: rest := by
  induction files generalizing store with
  | nil => exact ⟨[], store, .ok (), store, rfl, .nil, .refl, rfl⟩
  | cons file files ih =>
    rw [List.forM, bind_run]
    obtain ⟨fault, hrun⟩ | ⟨place, links, next, hwrites, hrun⟩ :=
      replaceThrough_writes system file store
    · rw [hrun]
      exact ⟨[], store, .error fault, _, rfl, .nil, extends_prepared _ _, file, files, rfl⟩
    · obtain ⟨writings, middle, result, after, hrest, hall, hextends, hresult⟩ := ih next
      rw [hrun]
      refine ⟨⟨file, place, links⟩ :: writings, middle, result, after, hrest, .cons hwrites hall,
        hextends, ?_⟩
      cases result with
      | ok => exact congrArg (file :: ·) hresult
      | error fault =>
        obtain ⟨failed, rest, rfl⟩ := hresult
        exact ⟨failed, rest, rfl⟩

theorem putsInTurn_persistThrough (system : System) (output : Output) :
    PutsInTurn (persistThrough system output) output.files.values := by
  intro store
  obtain ⟨writings, middle, result, after, hrun, hall, hextends, hresult⟩ :=
    forM_replaceThrough system output.files.values store
  refine ⟨writings, middle, result, after, hrun, hall, hextends, hresult, ?_, ?_⟩
  · intro place hplace
    rw [hextends.file?, hall.file?_of_ne hplace]
  · rintro earlier writing later rfl hplace
    refine ⟨?_, fun hlinks => ((hall.holds_last hplace hlinks).of_extends hextends).read⟩
    rw [hextends.file?, hall.file?_last hplace]

end Store

namespace Generation

open Stencil.Store (System)

/-- With a reliable system the files are those that `persist` writes. -/
theorem persistThrough_agrees {system : System} (hsystem : system.Reliable) (output : Output)
    (session : Session) :
    let run := (Store.persistThrough system output).run.run session.store
    let run' := (persist output).run.run session
    run.2 = run'.2.store ∧ run.1.isOk = run'.1.isOk := by
  obtain ⟨log, hrun⟩ := persistBy_run Store.replace output session
  have hagree : Store.Agree (Store.persistThrough system output)
      (output.files.values.forM fun file => Store.replace file.path file.text) :=
    .forM fun file => Store.replaceThrough_agrees hsystem file.path file.text
  dsimp only
  rw [persist, hrun]
  exact hagree session.store

section through

variable (system : System)

/-- The files are written that `persistThrough` writes. -/
theorem persistBy_replaceThrough_run (output : Output) (session : Session) :
    ∃ log, (persistBy (Store.replaceThrough system) output).run.run session =
      (((Store.persistThrough system output).run.run session.store).1,
        ⟨((Store.persistThrough system output).run.run session.store).2, log⟩) :=
  persistBy_run (Store.replaceThrough system) output session

/-- Whatever the system does, every main operation is handled, and changes at most its own file. -/
theorem handles_through {ε : Type} (generation : Generation) (directory : Path)
    (mains : List String) (session : Session) :
    ∃ handlings after,
      (generation.generateBy (Store.replaceThrough system) directory mains :
          Task ε Report).run.run session =
        (.ok ⟨handlings.filterMap Handling.generated?, handlings.filterMap Handling.failed?⟩,
          after) ∧
      handlings.map Handling.main = mains ∧ Threads session.store handlings after.store ∧
      ∀ handling ∈ handlings, handling.Isolated generation directory :=
  generateBy_handles
    (generateFileBy_isolated (Store.puts_replaceThrough system) generation directory) mains session

/-- Whatever the system does, the file is made of the text, unless it cannot be written. -/
theorem makes_text_through {ε : Type} (generation : Generation) (directory : Path) (main : String)
    (session : Session) :
    ∃ report after,
      (generation.generateBy (Store.replaceThrough system) directory [main] :
          Task ε Report).run.run session = (.ok report, after) ∧
      MakesText (Store.replaceThrough system) generation directory main session report after :=
  generateBy_makes_text (Store.puts_replaceThrough system) generation directory main session

end through

/-- A file is written as a whole or not at all, files are written in turn, whatever the system does.
If it does nothing wrong, this is what `replace` and `persist` do. -/
theorem write_atomic :
    (∀ system path text, Store.PutsOrKeeps (Store.replaceThrough system path text) ⟨path, text⟩) ∧
    (∀ system output,
      Store.PutsInTurn (Store.persistThrough system output) output.files.values) ∧
    (∀ path text, Store.Agree (Store.replaceThrough .plain path text) (Store.replace path text)) ∧
    ∀ (output : Output) (session : Session),
      let run := (Store.persistThrough .plain output).run.run session.store
      let run' := (persist output).run.run session
      run.2 = run'.2.store ∧ run.1.isOk = run'.1.isOk :=
  ⟨Store.putsOrKeeps_replaceThrough, Store.putsInTurn_persistThrough,
    Store.replaceThrough_agrees Store.System.plain_reliable,
    persistThrough_agrees Store.System.plain_reliable⟩

/-! ## Texts that are not where their paths lead -/

/-- Two names of one file, and then a name below it. -/
def twoNames : Output :=
  ((Output.empty.write ⟨"a"⟩ "1" .replace).write ⟨"./a"⟩ "2" .replace).write ⟨"a/b"⟩ "3" .replace

theorem values_twoNames :
    twoNames.files.values = [⟨⟨"a"⟩, "1"⟩, ⟨⟨"./a"⟩, "2"⟩, ⟨⟨"a/b"⟩, "3"⟩] := by
  decide +kernel

theorem replace_a :
    (Store.replace ⟨"a"⟩ "1").run.run (.empty []) =
      (.ok (), (Store.empty []).put ["a"] (.file "1".toUTF8)) := by
  have hcomponents : (Path.mk "a").components = [.name "a"] := by decide +kernel
  have hwritten : (Path.mk "a").written = [.name "a"] := by decide +kernel
  rw [Store.replace, Store.putFile, hcomponents, hwritten]
  simp [Store.needDirectories, Store.locateRoute, Store.isForbidden]
  rfl

theorem replace_current_a :
    (Store.replace ⟨"./a"⟩ "2").run.run ((Store.empty []).put ["a"] (.file "1".toUTF8)) =
      (.ok (), (Store.empty []).put ["a"] (.file "2".toUTF8)) := by
  have hcomponents : (Path.mk "./a").components = [.current, .name "a"] := by decide +kernel
  have hwritten : (Path.mk "./a").written = [.current, .name "a"] := by decide +kernel
  rw [Store.replace, Store.putFile, hcomponents, hwritten]
  simp [Store.needDirectories, Store.needDirectory, Store.makeDirectory, Store.leadsToDirectory,
    Store.locateRoute, Store.isForbidden]
  rfl

theorem replace_below_a :
    (Store.replace ⟨"a/b"⟩ "3").run.run ((Store.empty []).put ["a"] (.file "2".toUTF8)) =
      (.error .alreadyExists, (Store.empty []).put ["a"] (.file "2".toUTF8)) := by
  have hcomponents : (Path.mk "a/b").components = [.name "a", .name "b"] := by decide +kernel
  rw [Store.replace, hcomponents]
  simp [Store.needDirectories, Store.needDirectory, Store.makeDirectory, Store.leadsToDirectory,
    Store.locateRoute, Store.isForbidden]
  rfl

/-- The first file is written whole, but then the second one is written over it, before the third
one fails. The file that is written instead of a link on its way is not where its path leads now. -/
theorem text_not_where_path_leads :
    (∃ after, (Store.replace ⟨"out/x/../x"⟩ "hello").run.run linked = (.ok (), after) ∧
      after.read ⟨"out/x/../x"⟩ = .error .notADirectory) ∧
    ∃ after, (persist twoNames).run.run ⟨.empty [], #[]⟩ = (.error .alreadyExists, ⟨after,
        #[⟨.debug, .output, "Wrote file: a"⟩, ⟨.debug, .output, "Wrote file: ./a"⟩]⟩) ∧
      twoNames.files.values.head? = some ⟨⟨"a"⟩, "1"⟩ ∧ after.read ⟨"a"⟩ = .ok "2" := by
  refine ⟨⟨_, replace_linked, read_replaced_link⟩,
    (Store.empty []).put ["a"] (.file "2".toUTF8), ?_, ?_, ?_⟩
  · rw [persist, persistBy, values_twoNames]
    simp only [List.forM, bind_run, Task.replaceFileBy_eq, replace_a, replace_current_a,
      replace_below_a]
    rfl
  · rw [values_twoNames]
    rfl
  · have hroute : (Path.mk "a").route = ⟨false, [.name "a"]⟩ := by decide +kernel
    have hlocate : ((Store.empty []).put ["a"] (.file "2".toUTF8)).locate ⟨"a"⟩ = .ok ["a"] := by
      rw [Store.locate, hroute, Store.locateRoute]
      simp [Store.isForbidden]
      rfl
    exact Store.read_eq_ok hlocate rfl

end Generation

end Stencil
