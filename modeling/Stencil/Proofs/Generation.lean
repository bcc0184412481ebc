import Stencil.Generation
import Stencil.Proofs.Execution.Writes
import Stencil.Proofs.Session
import Stencil.Proofs.Store.Writing

/-!
# Generating files one by one

Main operations are handled in turn, whatever becomes of the ones before. A main operation whose run
fails, or that writes nothing, or whose file cannot be written, changes no file; one whose file is
made changes this file only, and its text is what the operation renders (`generate_isolated`).

The path of a file leads to the file that was made, but for one case: the file takes the place of a
link, and the way to its directory goes along that link (`generate_along_replaced_link`).
-/

namespace Stencil

namespace Output

/-- There is no file but that of the path, and this only if there is a text. -/
def Only (output : Output) (path : Path) (text? : Option String) : Prop :=
  output.files.toList = text?.toList.map fun text => (path.key, ⟨path, text⟩)

namespace Only

variable {output : Output} {path : Path} {text? : Option String}

theorem empty : Output.empty.Only path none :=
  rfl

theorem find? (h : output.Only path text?) : output.find? path = text? := by
  rw [Output.find?, Entries.find?, h]
  cases text? <;> simp [Entries.lookup]

theorem isEmpty (h : output.Only path text?) : output.isEmpty = text?.isNone := by
  rw [Output.isEmpty, Entries.isEmpty, h]
  cases text? <;> rfl

theorem write (h : output.Only path text?) (text : String) (mode : Mode) :
    (output.write path text mode).Only path ((output.write path text mode).find? path) := by
  have hentry : output.files.find? path.key = text?.map fun text => ⟨path, text⟩ := by
    rw [Entries.find?, h]
    cases text? <;> simp [Entries.lookup]
  have hfiles : (output.write path text mode).files.toList =
      Entries.put path.key (output.written path text mode) output.files.toList := rfl
  rw [find?_write_self, h.find?, Only, hfiles, h, written, hentry]
  cases text? <;> simp [Entries.put]

end Only

end Output

namespace Execution

theorem State.only_afterAll {state : State} {target : Path}
    (h : state.output.Only target (state.output.find? target)) (events : List Event) :
    (state.afterAll target events).output.Only target
      ((state.afterAll target events).output.find? target) := by
  induction events generalizing state with
  | nil => exact h
  | cons event events ih =>
    rw [afterAll_cons]
    apply ih
    cases event with
    | told record => exact h
    | wrote text => exact h.write text state.mode

/-- A run into no output leaves the texts of its trace, one after the other, and nothing else. -/
theorem runMain_only (environment : Environment) (target : Path) (main : String) (scopes : Scopes)
    (log : Log) :
    ∃ trace result after, ExecutesMain environment scopes main trace result ∧
      (runMain environment target main).run.run ⟨scopes, .replace, .empty, log⟩ = (result, after) ∧
      after.output.Only target
        (if trace.texts = [] then none else some (String.join trace.texts)) := by
  obtain ⟨trace, result, mode, hexec, hrun⟩ :=
    executesMain_of_runMain environment target main ⟨scopes, .replace, .empty, log⟩
  refine ⟨trace, result, _, hexec, hrun, ?_⟩
  have honly := @State.only_afterAll ⟨scopes, .replace, .empty, log⟩ target Output.Only.empty
    trace.events
  rw [State.find?_afterAll, Event.text_eq_join] at honly
  by_cases htexts : trace.texts = []
  · rw [(Event.writes_eq_false_iff _).2 htexts] at honly
    rw [if_pos htexts]
    exact honly
  · have hwrites : Event.writes trace.events = true := by
      rw [← Bool.not_eq_false, Event.writes_eq_false_iff]
      exact htexts
    rw [hwrites, if_pos rfl, String.empty_append] at honly
    rw [if_neg htexts]
    exact honly

end Execution

namespace Generation

open Stencil.Task (store_run tell_run attempt_run adapt_run replaceFileBy_run)

variable {ε : Type} (replace : Path → String → Store.Change Unit)

theorem persistBy_run (output : Output) (session : Session) :
    ∃ log, (persistBy replace output).run.run session =
      (((output.files.values.forM fun file => replace file.path file.text).run.run
          session.store).1,
        ⟨((output.files.values.forM fun file => replace file.path file.text).run.run
          session.store).2, log⟩) := by
  unfold persistBy
  induction output.files.values generalizing session with
  | nil => exact ⟨session.log, rfl⟩
  | cons file files ih =>
    obtain ⟨log, hfile⟩ := replaceFileBy_run replace file.path file.text session
    rw [List.forM, List.forM, bind_run, bind_run, hfile]
    rcases (replace file.path file.text).run.run session.store with ⟨_ | _, after⟩
    · exact ⟨log, rfl⟩
    · exact ih ⟨after, log⟩

theorem persistBy_only_run {output : Output} {path : Path} {text : String}
    (h : output.Only path (some text)) (session : Session) :
    ∃ log, (persistBy replace output).run.run session =
      (((replace path text).run.run session.store).1,
        ⟨((replace path text).run.run session.store).2, log⟩) := by
  have hvalues : output.files.values = [⟨path, text⟩] := by
    rw [Entries.values, h]
    rfl
  obtain ⟨log, hrun⟩ := persistBy_run replace output session
  refine ⟨log, hrun.trans ?_⟩
  rw [hvalues, List.forM, bind_run]
  rcases (replace path text).run.run session.store with ⟨_ | _, after⟩ <;> rfl

theorem only_mapTexts {output : Output} {path : Path} {text : String}
    (h : output.Only path (some text)) (change : Path → String → String) :
    (output.mapTexts change).Only path (some (change path text)) := by
  have hfiles : (output.mapTexts change).files.toList = output.files.toList.map fun entry =>
      (entry.1, { entry.2 with text := change entry.2.path entry.2.text }) := rfl
  rw [Output.Only, hfiles, h]
  rfl

theorem runFresh_run {α β : Type} {generation : Generation} {action : Execution.Run α}
    {next : Except Execution.Fault α × Output → Task ε β} {session : Session} :
    (generation.runFresh action >>= next).run.run session =
      let (result, state) :=
        action.run.run ⟨.ofScope generation.scope, .replace, .empty, session.log⟩
      (next (result, state.output)).run.run ⟨session.store, state.log⟩ := by
  rw [bind_run]
  rfl

theorem generateFileBy_run (generation : Generation) (directory : Path) (main : String)
    (session : Session) :
    let target := directory.join ⟨main⟩
    let (result, state) := (Execution.runMain (generation.environment session.store) target
      main).run.run ⟨.ofScope generation.scope, .replace, .empty, session.log⟩
    (generation.generateFileBy replace directory main).run.run session =
      match result with
      | .error fault => (.error (.run fault), ⟨session.store, state.log⟩)
      | .ok () =>
        if state.output.isEmpty then
          (.ok none, ⟨session.store, state.log.push
            ⟨.debug, .generation, "Operation: " ++ main ++ " produced no output"⟩⟩)
        else
          match (persistBy replace (state.output.mapTexts generation.finished)).run.run
              ⟨session.store, state.log⟩ with
          | (.ok (), after) => (.ok (some target), after)
          | (.error fault, after) => (.error (.write fault), after) := by
  intro target
  unfold generateFileBy
  simp only [store_run, runFresh_run]
  rcases hrun : (Execution.runMain (generation.environment session.store) target main).run.run
    ⟨.ofScope generation.scope, .replace, .empty, session.log⟩ with ⟨fault | _, state⟩
  · rfl
  · dsimp only
    split
    · rfl
    · rw [bind_run, adapt_run]
      rcases (persistBy replace (state.output.mapTexts generation.finished)).run.run
        ⟨session.store, state.log⟩ with ⟨_ | _, after⟩ <;> rfl

/-- The texts that the operation renders, one after the other, are the text of the file. If there
are any and the run does not fail, this is what is written, after it has been finished. -/
theorem generateFileBy_cases (generation : Generation) (directory : Path) (main : String)
    (session : Session) :
    let target := directory.join ⟨main⟩
    ∃ trace result log, Execution.ExecutesMain (generation.environment session.store)
        (.ofScope generation.scope) main trace result ∧
      (generation.generateFileBy replace directory main).run.run session =
        match result with
        | .error fault => (.error (.run fault), ⟨session.store, log⟩)
        | .ok () =>
          if trace.texts = [] then (.ok none, ⟨session.store, log⟩)
          else
            match (replace target
                (generation.finished target (String.join trace.texts))).run.run session.store with
            | (.ok (), after) => (.ok (some target), ⟨after, log⟩)
            | (.error fault, after) => (.error (.write fault), ⟨after, log⟩) := by
  intro target
  obtain ⟨trace, result, state, hexec, hrun, honly⟩ := Execution.runMain_only
    (generation.environment session.store) target main (.ofScope generation.scope) session.log
  have hgenerate := generateFileBy_run replace generation directory main session
  dsimp only at hgenerate
  rw [hrun] at hgenerate
  dsimp only at hgenerate
  cases result with
  | error fault => exact ⟨trace, .error fault, state.log, hexec, hgenerate⟩
  | ok =>
    rw [honly.isEmpty] at hgenerate
    by_cases htexts : trace.texts = []
    · rw [if_pos htexts] at hgenerate
      exact ⟨trace, .ok (), _, hexec, hgenerate.trans (if_pos htexts).symm⟩
    · rw [if_neg htexts] at honly hgenerate
      obtain ⟨log, hpersist⟩ := persistBy_only_run replace (only_mapTexts honly generation.finished)
        ⟨session.store, state.log⟩
      rw [hpersist] at hgenerate
      refine ⟨trace, .ok (), log, hexec, hgenerate.trans ?_⟩
      dsimp only
      rw [if_neg htexts]
      rcases (replace target (generation.finished target (String.join trace.texts))).run.run
        session.store with ⟨_ | _, after⟩ <;> rfl

/-! ## One main operation -/

/-- What becomes of a main operation. -/
inductive Outcome where
  /-- Its file was made. -/
  | generated (path : Path)
  /-- Its file could not be made. -/
  | failed (fault : Fault)
  /-- It writes nothing. -/
  | silent

/-- What the outcome is reported as. -/
def Outcome.result : Outcome → Except Fault (Option Path)
  | .generated path => .ok (some path)
  | .failed fault => .error fault
  | .silent => .ok none

/-- How a main operation was handled: what became of it, and the store before and after. -/
structure Handling where
  main : String
  outcome : Outcome
  before : Store
  after : Store

namespace Handling

def generated? (handling : Handling) : Option Path :=
  match handling.outcome with
  | .generated path => some path
  | _ => none

def failed? (handling : Handling) : Option (String × Fault) :=
  match handling.outcome with
  | .failed fault => some (handling.main, fault)
  | _ => none

/-- Every file is there as before, and no other. -/
def KeepsFiles (handling : Handling) : Prop :=
  ∀ place, handling.after.file? place = handling.before.file? place

/-- The file with the text is at the place where the path leads, once the directories are made, and
at the other places every file is there as before, and no other. Unless the way to the directory
goes along a link that was at the place, the path leads to the file. -/
def Writes (handling : Handling) (path : Path) (text : String) : Prop :=
  let prepared := handling.before.prepared path
  ∃ way parent name links, prepared.Receives path way parent name ∧
    prepared.Leads links Store.maxLinks (if path.isAbsolute then [] else prepared.working) way
      parent ∧
    let place := parent ++ [name]
    handling.after.file? place = some text.toUTF8 ∧
      (∀ other, other ≠ place → handling.after.file? other = handling.before.file? other) ∧
      (place ∉ links → handling.after.read path = .ok text)

/-- The outcome is what the run of the operation and the writing of its file say, and only if the
file was made, one file is changed. -/
def Isolated (generation : Generation) (directory : Path) (handling : Handling) : Prop :=
  let target := directory.join ⟨handling.main⟩
  ∃ trace result, Execution.ExecutesMain (generation.environment handling.before)
      (.ofScope generation.scope) handling.main trace result ∧
    match handling.outcome with
    | .generated path => path = target ∧ result = .ok () ∧ trace.texts ≠ [] ∧
      handling.Writes target (generation.finished target (String.join trace.texts))
    | .silent => result = .ok () ∧ trace.texts = [] ∧ handling.KeepsFiles
    | .failed (.run fault) => result = .error fault ∧ handling.KeepsFiles
    | .failed (.write _) => result = .ok () ∧ trace.texts ≠ [] ∧ handling.KeepsFiles

end Handling

variable {replace}

theorem generateFileBy_isolated (hputs : Store.Puts replace) (generation : Generation)
    (directory : Path) (main : String) (session : Session) :
    ∃ outcome after log, (generation.generateFileBy replace directory main).run.run session =
        (outcome.result, ⟨after, log⟩) ∧
      Handling.Isolated generation directory ⟨main, outcome, session.store, after⟩ := by
  obtain ⟨trace, result, log, hexec, hrun⟩ :=
    generateFileBy_cases replace generation directory main session
  cases result with
  | error fault =>
    exact ⟨.failed (.run fault), session.store, log, hrun, trace, _, hexec, rfl, fun _ => rfl⟩
  | ok =>
    by_cases htexts : trace.texts = []
    · simp only [if_pos htexts] at hrun
      exact ⟨.silent, session.store, log, hrun, trace, _, hexec, rfl, htexts, fun _ => rfl⟩
    · simp only [if_neg htexts] at hrun
      let target := directory.join ⟨main⟩
      let text := generation.finished target (String.join trace.texts)
      obtain ⟨fault, after, hreplace, hkept⟩ | ⟨way, parent, name, hreceives, hreplace⟩ :=
        hputs target text session.store
      · rw [hreplace] at hrun
        exact ⟨.failed (.write fault), after, log, hrun, trace, _, hexec, rfl, htexts, hkept⟩
      · rw [hreplace] at hrun
        obtain ⟨links, hleads⟩ := hreceives.exists_leads
        refine ⟨.generated target, _, log, hrun, trace, _, hexec, rfl, rfl, htexts, way, parent,
          name, links, hreceives, hleads, ?_, ?_, ?_⟩
        · exact Store.file?_put_file_self (by simp) _
        · intro other hne
          exact (Store.file?_put_file_of_ne hne _).trans (Store.file?_prepared _ _ _)
        · intro hlinks
          exact hreceives.read_put hleads hlinks text

/-! ## All main operations -/

/-- Each handling begins with the store that the one before it has left. -/
def Threads (before : Store) : List Handling → Store → Prop
  | [], after => before = after
  | handling :: handlings, after => handling.before = before ∧
    Threads handling.after handlings after

theorem tellFault_run {α : Type} (main : String) (fault : Fault) (session : Session) :
    ∃ log, ∀ next : Unit → Task ε α, (tellFault main fault >>= next).run.run session =
      (next ()).run.run ⟨session.store, log⟩ := by
  unfold tellFault
  split
  · exact ⟨_, fun _ => tell_run⟩
  · exact ⟨_, fun _ => tell_run⟩

/-- After a main operation has been handled, those that are left are, and its report stands before
theirs. -/
theorem generateBy_cons_run {generation : Generation} {directory : Path} {main : String}
    {session : Session} {outcome : Outcome} {after : Store} {log : Log} (mains : List String)
    (hfile : (generation.generateFileBy replace directory main).run.run session =
      (outcome.result, ⟨after, log⟩)) :
    let handling : Handling := ⟨main, outcome, session.store, after⟩
    ∃ log', ∀ report final,
      (generation.generateBy replace directory mains : Task ε Report).run.run ⟨after, log'⟩ =
          (.ok report, final) →
        (generation.generateBy replace directory (main :: mains) : Task ε Report).run.run session =
          (.ok ⟨handling.generated?.toList ++ report.generated,
            handling.failed?.toList ++ report.failed⟩, final) := by
  intro handling
  rw [generateBy, attempt_run, hfile]
  cases outcome with
  | generated path =>
    refine ⟨log.push ⟨.info, .generation, "Generated: " ++ path.text⟩, ?_⟩
    intro report final htail
    dsimp only [Outcome.result]
    rw [tell_run, bind_run, htail]
    rfl
  | failed fault =>
    obtain ⟨log', htell⟩ := tellFault_run main fault ⟨after, log⟩
    refine ⟨log', ?_⟩
    intro report final htail
    dsimp only [Outcome.result]
    rw [htell, bind_run, htail]
    rfl
  | silent => exact ⟨log, fun report final htail => htail⟩

/-- What holds of each main operation when it is handled, from whichever session, holds of all that
are handled one after the other. The report says of each what became of it, in order. -/
theorem generateBy_handles {generation : Generation} {directory : Path}
    {property : Handling → Prop}
    (h : ∀ main session, ∃ outcome after log,
      (generation.generateFileBy replace directory main).run.run session =
          (outcome.result, ⟨after, log⟩) ∧
        property ⟨main, outcome, session.store, after⟩)
    (mains : List String) (session : Session) :
    ∃ handlings after,
      (generation.generateBy replace directory mains : Task ε Report).run.run session =
        (.ok ⟨handlings.filterMap Handling.generated?, handlings.filterMap Handling.failed?⟩,
          after) ∧
      handlings.map Handling.main = mains ∧ Threads session.store handlings after.store ∧
      ∀ handling ∈ handlings, property handling := by
  -- Whatever becomes of the first main operation, the others begin with the store that it has left.
  induction mains generalizing session with
  | nil => exact ⟨[], session, rfl, rfl, rfl, fun _ h => absurd h List.not_mem_nil⟩
  | cons main mains ih =>
    obtain ⟨outcome, after, log, hfile, hproperty⟩ := h main session
    obtain ⟨log', hcons⟩ := generateBy_cons_run mains hfile
    obtain ⟨handlings, final, hrun, hmains, hthreads, hall⟩ := ih ⟨after, log'⟩
    let handling : Handling := ⟨main, outcome, session.store, after⟩
    refine ⟨handling :: handlings, final, ?_, congrArg (main :: ·) hmains, ⟨rfl, hthreads⟩,
      List.forall_mem_cons.2 ⟨hproperty, hall⟩⟩
    rw [hcons _ _ hrun, List.filterMap_cons, List.filterMap_cons]
    cases outcome <;> rfl

/-- Every main operation is handled, one after the other. The report says of each what became of it,
in order, and each changes at most its own file. -/
theorem generate_isolated (generation : Generation) (directory : Path) (mains : List String)
    (session : Session) :
    ∃ handlings after,
      (generation.generate directory mains : Task ε Report).run.run session =
        (.ok ⟨handlings.filterMap Handling.generated?, handlings.filterMap Handling.failed?⟩,
          after) ∧
      handlings.map Handling.main = mains ∧ Threads session.store handlings after.store ∧
      ∀ handling ∈ handlings, handling.Isolated generation directory :=
  generateBy_handles (generateFileBy_isolated Store.puts_replace generation directory) mains session

/-! ## A link that is replaced -/

/-- A directory with a link from `x` to `y`, which is next to it. -/
def linked : Store :=
  ⟨.ofList [(["t"], .directory), (["t", "a"], .file "hello".toUTF8), (["out"], .directory),
    (["out", "x"], .link ⟨"y"⟩), (["out", "y"], .directory)], []⟩

/-- The only operation writes to `x` along a way that goes to `x` and back. -/
def relinking : Generation :=
  ⟨⟨[⟨"x/../x", none, .template "a" [] none []⟩], by decide, ["x/../x"], by decide⟩, .empty,
    ⟨"t"⟩, .empty, false⟩

theorem locate_linked : linked.locate ⟨"t/a"⟩ = .ok ["t", "a"] := by
  have hroute : (Path.mk "t/a").route = ⟨false, [.name "t", .name "a"]⟩ := by decide +kernel
  rw [Store.locate, hroute, Store.locateRoute]
  simp [Store.isForbidden]
  rfl

theorem executesMain_relinking :
    ∃ trace, Execution.ExecutesMain (relinking.environment linked) (.ofScope relinking.scope)
      "x/../x" trace (.ok ()) ∧ trace.texts = ["hello"] := by
  let environment := relinking.environment linked
  let scopes := Scopes.ofScope relinking.scope
  let operation : Operation := ⟨"x/../x", none, .template "a" [] none []⟩
  have hpath : environment.templatePath "a" = ⟨"t/a"⟩ := by decide +kernel
  have htemplate : environment.templates.read? ⟨"t/a"⟩ = some (.ok "hello") := by
    have hread : linked.read ⟨"t/a"⟩ = .ok "hello" := Store.read_eq_ok locate_linked rfl
    change (if linked.contains ⟨"t/a"⟩ then some (linked.read ⟨"t/a"⟩) else none) = _
    rw [Store.contains, locate_linked, hread]
    rfl
  have hperformed : environment.performance scopes operation.identifier operation.kind =
      ⟨[.rendering ⟨"t/a"⟩, .wrote "hello"], .ok []⟩ := by
    simp only [operation, Execution.Environment.performance, hpath, htemplate]
    with_unfolding_all rfl
  have hstep : environment.step scopes operation =
      ⟨[.told ⟨.debug, .execution, "Running template operation: x/../x"⟩, .rendering ⟨"t/a"⟩,
        .wrote "hello"], .ok []⟩ := by
    rw [Execution.Environment.step, hperformed]
    with_unfolding_all rfl
  have hnext : (environment.step scopes operation).next = .ok [] := by
    rw [hstep]
  refine ⟨_, .run rfl (.followed hnext .nil), ?_⟩
  rw [hstep]
  rfl

theorem replace_linked :
    (Store.replace ⟨"out/x/../x"⟩ "hello").run.run linked =
      (.ok (), linked.put ["out", "x"] (.file "hello".toUTF8)) := by
  have hcomponents : (Path.mk "out/x/../x").components =
      [.name "out", .name "x", .parent, .name "x"] := by decide +kernel
  have hwritten : (Path.mk "out/x/../x").written =
      [.name "out", .name "x", .parent, .name "x"] := by decide +kernel
  rw [Store.replace, Store.putFile, hcomponents, hwritten]
  simp [Store.needDirectories, Store.needDirectory, Store.makeDirectory, Store.leadsToDirectory,
    Store.locateRoute, Store.isForbidden]
  rfl

theorem read_replaced_link :
    (linked.put ["out", "x"] (.file "hello".toUTF8)).read ⟨"out/x/../x"⟩ =
      .error .notADirectory := by
  have hroute : (Path.mk "out/x/../x").route =
      ⟨false, [.name "out", .name "x", .parent, .name "x"]⟩ := by decide +kernel
  have hlocate : (linked.put ["out", "x"] (.file "hello".toUTF8)).locate ⟨"out/x/../x"⟩ =
      .error .notADirectory := by
    rw [Store.locate, hroute, Store.locateRoute]
    simp [Store.isForbidden]
    rfl
  rw [Store.read, Store.readBytes, hlocate]
  rfl

/-- The file is where its path led, but now that it is there instead of the link, its path does not
lead to it any more. -/
theorem generate_along_replaced_link :
    let run := (relinking.generate ⟨"out"⟩ ["x/../x"] : Task Unit Report).run.run ⟨linked, #[]⟩
    run.1 = .ok ⟨[⟨"out/x/../x"⟩], []⟩ ∧
      run.2.store.read ⟨"out/x/../x"⟩ = .error .notADirectory := by
  intro run
  obtain ⟨trace, hexec, htexts⟩ := executesMain_relinking
  obtain ⟨trace', result, log, hexec', hfile⟩ :=
    generateFileBy_cases Store.replace relinking ⟨"out"⟩ "x/../x" ⟨linked, #[]⟩
  obtain ⟨rfl, rfl⟩ := hexec.unique hexec'
  have htarget : (Path.mk "out").join ⟨"x/../x"⟩ = ⟨"out/x/../x"⟩ := by decide +kernel
  have hfinished : relinking.finished ⟨"out/x/../x"⟩ "hello" = "hello" := rfl
  have hjoin : String.join ["hello"] = "hello" := by decide +kernel
  simp only [htexts, htarget, hjoin, hfinished, replace_linked] at hfile
  obtain ⟨log', hgenerate⟩ :=
    @generateBy_cons_run Unit _ _ _ _ _ (.generated ⟨"out/x/../x"⟩) _ _ [] hfile
  have hrun : run = _ := hgenerate _ _ rfl
  rw [hrun]
  exact ⟨rfl, read_replaced_link⟩

end Generation

end Stencil
