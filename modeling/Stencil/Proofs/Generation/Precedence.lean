import Stencil.CommandLine.Run
import Stencil.Proofs.Generation.Text
import Stencil.Proofs.Loading

/-!
# Which values a generation starts with

A name has its value from the last definition of it, or else from the context, or else from the
project. Every run of a main operation starts with these values, whatever the runs before it have
bound. One text that is no definition is enough for nothing to be made (`generate_starts_with`).
-/

namespace Stencil

namespace Context

/-- The last of the definitions of the name gives it the text. -/
def LastDefines (definitions : List String) (name text : String) : Prop :=
  ∃ before definition after, definitions = before ++ definition :: after ∧
    Defines definition name text ∧ ∀ later ∈ after, ∀ text, ¬ Defines later name text

/-- What a name means at first: what the last definition of it says, or else the context, or else
the project. -/
inductive Given (definitions : List String) (context project : Scope) (name : String) :
    Option Value → Prop where
  | defined {text} : LastDefines definitions name text →
      Given definitions context project name (some (.string text))
  | context {value} : (∀ definition ∈ definitions, ∀ text, ¬ Defines definition name text) →
      context.find? name = some value → Given definitions context project name (some value)
  | project : (∀ definition ∈ definitions, ∀ text, ¬ Defines definition name text) →
      context.find? name = none → Given definitions context project name (project.find? name)

theorem LastDefines.exists_mem {definitions : List String} {name text : String}
    (h : LastDefines definitions name text) :
    ∃ definition ∈ definitions, Defines definition name text := by
  obtain ⟨before, definition, after, rfl, hdefines, -⟩ := h
  exact ⟨definition, by simp, hdefines⟩

theorem LastDefines.unique {definitions : List String} {name text text' : String}
    (h : LastDefines definitions name text) (h' : LastDefines definitions name text') :
    text = text' := by
  obtain ⟨before, definition, after, rfl, hdefines, hlast⟩ := h
  obtain ⟨before', definition', after', heq, hdefines', hlast'⟩ := h'
  rcases List.append_eq_append_iff.1 heq with ⟨between, rfl, hbetween⟩ | ⟨between, rfl, hbetween⟩
  · rcases List.cons_eq_append_iff.1 hbetween with ⟨rfl, hcons⟩ | ⟨rest, rfl, rfl⟩
    · cases hcons
      exact (hdefines.unique hdefines').2
    · exact absurd hdefines' (hlast definition' (by simp) text')
  · rcases List.cons_eq_append_iff.1 hbetween with ⟨rfl, hcons⟩ | ⟨rest, rfl, rfl⟩
    · cases hcons
      exact (hdefines.unique hdefines').2
    · exact absurd hdefines (hlast' definition (by simp) text)

/-- A name means one thing at first. -/
theorem Given.unique {definitions : List String} {context project : Scope} {name : String}
    {value? value?' : Option Value} (h : Given definitions context project name value?)
    (h' : Given definitions context project name value?') : value? = value?' := by
  have hdefined : ∀ {text : String}, LastDefines definitions name text →
      ¬ ∀ definition ∈ definitions, ∀ text, ¬ Defines definition name text := by
    intro text hlast hnone
    obtain ⟨definition, hmem, hdefines⟩ := hlast.exists_mem
    exact hnone definition hmem text hdefines
  cases h with
  | defined hlast =>
    cases h' with
    | defined hlast' => rw [hlast.unique hlast']
    | context hnone | project hnone => exact absurd hnone (hdefined hlast)
  | context hnone hfind =>
    cases h' with
    | defined hlast => exact absurd hnone (hdefined hlast)
    | context _ hfind' => rw [← hfind, hfind']
    | project _ hfind' => simp [hfind] at hfind'
  | project hnone hfind =>
    cases h' with
    | defined hlast => exact absurd hnone (hdefined hlast)
    | context _ hfind' => simp [hfind] at hfind'
    | project => rfl

/-- Of definitions that are put one after the other, the last of a name counts; without any, what
was there before. -/
theorem find?_insertAll_definitions {definitions : List String} {values : List (String × Value)}
    (h : readDefinitions definitions = .ok values) (scope : Scope) (name : String) :
    (∃ text, LastDefines definitions name text ∧
        (scope.insertAll values).find? name = some (.string text)) ∨
      (∀ definition ∈ definitions, ∀ text, ¬ Defines definition name text) ∧
        (scope.insertAll values).find? name = scope.find? name := by
  rw [readDefinitions_eq_ok_iff] at h
  induction h generalizing scope with
  | nil => exact .inr ⟨nofun, rfl⟩
  | @cons definition value definitions values hvalue _ ih =>
    obtain ⟨text, hdefines, htext⟩ := hvalue
    rcases ih (scope.insert value.1 value.2) with
      ⟨last, ⟨before, other, after, rfl, hlast⟩, hfind⟩ | ⟨hnone, hfind⟩
    · exact .inl ⟨last, ⟨definition :: before, other, after, rfl, hlast⟩, hfind⟩
    by_cases hname : value.1 = name
    · subst hname
      refine .inl ⟨text, ⟨[], definition, definitions, rfl, hdefines, hnone⟩, hfind.trans ?_⟩
      rw [Entries.find?_insert_self, htext]
    · refine .inr ⟨List.forall_mem_cons.2 ⟨fun other hother => ?_, hnone⟩, hfind.trans ?_⟩
      · exact hname (hdefines.unique hother).1
      · exact Entries.find?_insert_of_ne _ _ (Ne.symm hname)

theorem given_iff_of_readDefinitions {definitions : List String} {values : List (String × Value)}
    (h : readDefinitions definitions = .ok values) (context project : Scope) (name : String)
    {value? : Option Value} :
    Given definitions context project name value? ↔
      ((context.insertAll values).find? name).or (project.find? name) = value? := by
  have hgiven : Given definitions context project name
      (((context.insertAll values).find? name).or (project.find? name)) := by
    rcases find?_insertAll_definitions h context name with ⟨text, hlast, hfind⟩ | ⟨hnone, hfind⟩
    · rw [hfind, Option.some_or]
      exact .defined hlast
    · rw [hfind]
      cases hcontext : context.find? name with
      | some value => exact .context hnone hcontext
      | none => exact .project hnone hcontext
  constructor
  · exact hgiven.unique
  · rintro rfl
    exact hgiven

end Context

namespace Generation

open CommandLine (Command runGenerate)
open Stencil.Task (Gives)

/-! ## Runs of main operations -/

/-- A run of the main operation that starts with these scopes, and with nothing written, decides
what becomes of the operation and of the store: nothing is written if it fails or writes nothing,
and otherwise the files that it has written are, once they are finished. -/
def Handling.StartsWith (generation : Generation) (directory : Path) (start : Scopes)
    (handling : Handling) : Prop :=
  let target := directory.join ⟨handling.main⟩
  ∃ log result state, (Execution.runMain (generation.environment handling.before) target
      handling.main).run.run ⟨start, .replace, .empty, log⟩ = (result, state) ∧
    match result with
    | .error fault => handling.outcome = .failed (.run fault) ∧ handling.after = handling.before
    | .ok () =>
      if state.output.isEmpty then
        handling.outcome = .silent ∧ handling.after = handling.before
      else
        ∃ written log', (persist (state.output.mapTexts generation.finished)).run.run
            ⟨handling.before, state.log⟩ = (written, ⟨handling.after, log'⟩) ∧
          match written with
          | .ok () => handling.outcome = .generated target
          | .error fault => handling.outcome = .failed (.write fault)

theorem generateFile_startsWith (generation : Generation) (directory : Path) (main : String)
    (session : Session) :
    ∃ outcome after log, (generation.generateFile directory main).run.run session =
        (outcome.result, ⟨after, log⟩) ∧
      Handling.StartsWith generation directory (.ofScope generation.scope)
        ⟨main, outcome, session.store, after⟩ := by
  have hgenerate := generateFileBy_run Store.replace generation directory main session
  dsimp only at hgenerate
  rcases hrun : (Execution.runMain (generation.environment session.store)
    (directory.join ⟨main⟩) main).run.run
      ⟨.ofScope generation.scope, .replace, .empty, session.log⟩ with ⟨result, state⟩
  rw [hrun] at hgenerate
  dsimp only at hgenerate
  cases result with
  | error fault =>
    exact ⟨.failed (.run fault), _, _, hgenerate, session.log, _, state, hrun, rfl, rfl⟩
  | ok =>
    by_cases hempty : state.output.isEmpty = true
    · simp only [if_pos hempty] at hgenerate
      refine ⟨.silent, _, _, hgenerate, session.log, _, state, hrun, ?_⟩
      dsimp only
      rw [if_pos hempty]
      exact ⟨rfl, rfl⟩
    · simp only [if_neg hempty] at hgenerate
      rcases hpersist : (persistBy Store.replace
        (state.output.mapTexts generation.finished)).run.run ⟨session.store, state.log⟩ with
        ⟨fault | _, after⟩
      · rw [hpersist] at hgenerate
        refine ⟨.failed (.write fault), _, _, hgenerate, session.log, _, state, hrun, ?_⟩
        dsimp only
        rw [if_neg hempty]
        exact ⟨_, after.log, hpersist, rfl⟩
      · rw [hpersist] at hgenerate
        refine ⟨.generated _, _, _, hgenerate, session.log, _, state, hrun, ?_⟩
        dsimp only
        rw [if_neg hempty]
        exact ⟨_, after.log, hpersist, rfl⟩

/-! ## Whole generations -/

/-- What a command comes to: it fails if something cannot be loaded. -/
theorem run_generate (sources : Sources) (output : Path) (mains : List String) (session : Session) :
    (Command.run (.generate sources output mains)).run session =
      match (runGenerate sources output mains).run.run session with
      | (.ok (), after) => (⟨0, none⟩, after)
      | (.error failure, after) =>
        (⟨1, some (failure.stage.heading ++ failure.failure.report)⟩, after) := by
  rw [Command.run, StateT.run_bind]
  rcases (runGenerate sources output mains).run.run session with ⟨_ | _, after⟩ <;> rfl

theorem gives_forM_tell {ε α : Type} {store : Store} (items : List α) (level : Log.Level)
    (channel : Log.Channel) (text : α → String) :
    Gives store (items.forM fun item => Task.tell level channel (text item) : Task ε Unit)
      fun _ => True := by
  induction items with
  | nil => exact (Gives.pure ()).congr fun _ => by simp
  | cons item items ih => exact (Gives.tell _ _ _).after ih

theorem run_generate_of_loaded {sources : Sources} {session : Session} {generation : Generation}
    {log : Log} (hload : (load sources).run.run session = (.ok generation, ⟨session.store, log⟩))
    {property : Handling → Prop} {output : Path}
    (h : ∀ main session, ∃ outcome after log,
      (generation.generateFile output main).run.run session = (outcome.result, ⟨after, log⟩) ∧
        property ⟨main, outcome, session.store, after⟩)
    (mains : List String) :
    ∃ handlings after,
      (Command.run (.generate sources output mains)).run session = (⟨0, none⟩, after) ∧
      handlings.map Handling.main = mains ∧ Threads session.store handlings after.store ∧
      ∀ handling ∈ handlings, property handling := by
  obtain ⟨handlings, after, hgenerate, hmains, hthreads, hall⟩ :=
    @generateBy_handles LoadFailure Store.replace _ _ _ h mains ⟨session.store, log⟩
  let report : Report :=
    ⟨handlings.filterMap Handling.generated?, handlings.filterMap Handling.failed?⟩
  have htold := (@gives_forM_tell LoadFailure _ after.store report.failed .warn .command
    fun failed => "No output for: " ++ failed.1 ++ " (" ++ failed.2.message ++ ")").after
    (Gives.tell .info .command ("Generated " ++ toString report.generated.length ++ " of "
      ++ toString mains.length ++ " files in " ++ output.text ++ "."))
  obtain ⟨result, log', htold, hresult⟩ := htold after.log
  rw [(hresult ()).2 trivial] at htold
  refine ⟨handlings, ⟨after.store, log'⟩, ?_, hmains, hthreads, hall⟩
  rw [run_generate, runGenerate, bind_run, hload]
  dsimp only
  rw [generate, bind_run, hgenerate]
  dsimp only
  rw [htold]

/-- Every run of a main operation starts with what each name is given: by the last definition of it,
else by the context, else by the project. If one text is no definition, the command fails and no
file is changed. -/
theorem generate_starts_with (sources : Sources) (session : Session) :
    ((∀ definition ∈ sources.definitions, ∃ name text, Context.Defines definition name text) →
      ∀ project context set text,
        Loads session.store Project.ofText? .empty sources.project project →
        Loads session.store Context.ofText? .empty sources.context context →
        session.store.read sources.operations = .ok text → OperationSet.read text = .ok set →
        ∃ start generation,
          (∀ name value?, Context.Given sources.definitions context project.scope name value? ↔
            start.get? name = value?) ∧
          generation.operations = set ∧ generation.project = project ∧
          generation.templates = sources.templates ∧ generation.formats = sources.formats ∧
          ∀ output mains, ∃ handlings after,
            (Command.run (.generate sources output mains)).run session = (⟨0, none⟩, after) ∧
            handlings.map Handling.main = mains ∧ Threads session.store handlings after.store ∧
            ∀ handling ∈ handlings, handling.StartsWith generation output start) ∧
    ((∃ definition ∈ sources.definitions, Context.Malformed definition) →
      ∀ output mains, ∃ complaint log,
        (Command.run (.generate sources output mains)).run session =
          (⟨1, some complaint⟩, ⟨session.store, log⟩)) := by
  constructor
  · intro hdefinitions project context set text hproject hcontext hread hset
    obtain ⟨values, hvalues⟩ := Context.exists_readDefinitions_eq_ok_iff.2 hdefinitions
    obtain ⟨result, log, hload, hresult⟩ := gives_load sources session.log
    let generation := withValues ⟨set, project, sources.templates, .empty, sources.formats⟩
      (context.insertAll values)
    rw [(hresult generation).2 ⟨project, hproject, context, hcontext, values, hvalues, set,
      ⟨text, hread, hset⟩, rfl⟩] at hload
    refine ⟨.ofScope generation.scope, generation, fun name value? => ?_, rfl, rfl, rfl, rfl, ?_⟩
    · have hname : (Scopes.ofScope generation.scope).get? name =
          ((context.insertAll values).find? name).or (project.scope.find? name) :=
        find?_scope_withValues _ _ name
      rw [hname]
      exact Context.given_iff_of_readDefinitions hvalues context project.scope name
    · intro output mains
      exact run_generate_of_loaded hload (generateFile_startsWith generation output) mains
  · rintro ⟨definition, hmem, hmalformed⟩ output mains
    obtain ⟨result, log, hload, hresult⟩ := gives_load sources session.log
    cases result with
    | ok generation =>
      obtain ⟨_, -, _, -, values, hvalues, -⟩ := (hresult generation).1 rfl
      obtain ⟨name, text, hdefines⟩ :=
        Context.exists_readDefinitions_eq_ok_iff.1 ⟨values, hvalues⟩ definition hmem
      exact absurd hdefines (Context.malformed_iff.1 hmalformed name text)
    | error failure =>
      refine ⟨failure.stage.heading ++ failure.failure.report, log, ?_⟩
      rw [run_generate, runGenerate, bind_run, hload]

/-- A project, a context and an operation. -/
def layered : Store :=
  ⟨.ofList [(["project"], .file "project:\n  name: p\n".toUTF8),
    (["context"], .file "year: 1\n".toUTF8),
    (["operations"], .file "identifier: main\ntype: template\nfile: a\n".toUTF8)], []⟩

/-- All of them, and definitions of a name that the context has too. -/
def layeredSources : Sources :=
  ⟨⟨"operations"⟩, ⟨"templates"⟩, some ⟨"project"⟩, some ⟨"context"⟩, ["year=2", " year = 3=4"],
    false⟩

theorem locate_layered : ∀ name ∈ ["project", "context", "operations"],
    layered.locate ⟨name⟩ = .ok [name] := by
  intro name hname
  have hroute : (Path.mk name).route = ⟨false, [.name name]⟩ := by
    revert name
    decide +kernel
  rw [Store.locate, hroute, Store.locateRoute]
  simp only [List.mem_cons, List.not_mem_nil, or_false] at hname
  rcases hname with rfl | rfl | rfl <;> simp [Store.isForbidden] <;> rfl

theorem loads_layered {α : Type} (value? : String → Option α) (default : α) (name : String)
    {text : String} (hname : name ∈ ["project", "context", "operations"])
    (hfile : layered.find? [name] = some (.file text.toUTF8)) (hvalue : (value? text).isSome) :
    ∃ value, Loads layered value? default (some ⟨name⟩) value := by
  obtain ⟨value, hvalue⟩ := Option.isSome_iff_exists.1 hvalue
  have hlocate := locate_layered name hname
  refine ⟨value, .file ?_ (Store.read_eq_ok hlocate hfile) hvalue⟩
  rw [Store.hasFile, Store.get?, hlocate]
  simp only [hfile]

/-- The last definition counts more than the one before it and than the context. -/
theorem generate_starts_with_layered :
    (∃ (start : Scopes) (generation : Generation), start.get? "year" = some (.string " 3=4") ∧
      ∀ output mains, ∃ handlings after,
        (Command.run (.generate layeredSources output mains)).run ⟨layered, #[]⟩ =
            (⟨0, none⟩, after) ∧
          handlings.map Handling.main = mains ∧ Threads layered handlings after.store ∧
          ∀ handling ∈ handlings, handling.StartsWith generation output start) ∧
    ∃ complaint log,
      (Command.run (.generate { layeredSources with definitions := ["year=2", " =3"] } ⟨"out"⟩
        ["main"])).run ⟨layered, #[]⟩ = (⟨1, some complaint⟩, ⟨layered, log⟩) := by
  have hfirst : Context.Defines "year=2" "year" "2" :=
    ⟨"year".toList, by decide, by decide, by decide, by decide⟩
  have hsecond : Context.Defines " year = 3=4" "year" " 3=4" :=
    ⟨" year ".toList, by decide, by decide, by decide, by decide⟩
  have hmalformed : Context.Malformed " =3" :=
    .inr ⟨[' '], ['3'], by decide, by decide, by decide⟩
  have hdefinitions : ∀ definition ∈ layeredSources.definitions,
      ∃ name text, Context.Defines definition name text := by
    simpa [layeredSources] using ⟨⟨_, _, hfirst⟩, ⟨_, _, hsecond⟩⟩
  obtain ⟨project, hproject⟩ :=
    loads_layered Project.ofText? .empty "project" (by decide) rfl (by decide +kernel)
  obtain ⟨context, hcontext⟩ :=
    loads_layered Context.ofText? .empty "context" (by decide) rfl (by decide +kernel)
  have hread : layered.read ⟨"operations"⟩ = .ok "identifier: main\ntype: template\nfile: a\n" :=
    Store.read_eq_ok (locate_layered _ (by decide)) rfl
  obtain ⟨set, hset⟩ : ∃ set,
      OperationSet.read "identifier: main\ntype: template\nfile: a\n" = .ok set := by
    have hsome : (OperationSet.read
      "identifier: main\ntype: template\nfile: a\n").toOption.isSome := by decide +kernel
    cases hset : OperationSet.read "identifier: main\ntype: template\nfile: a\n" with
    | ok set => exact ⟨set, rfl⟩
    | error fault =>
      rw [hset] at hsome
      cases hsome
  obtain ⟨start, generation, hgiven, -, -, -, -, hruns⟩ :=
    (generate_starts_with layeredSources ⟨layered, #[]⟩).1 hdefinitions project context set _
      hproject hcontext hread hset
  have hlast : Context.LastDefines layeredSources.definitions "year" " 3=4" :=
    ⟨["year=2"], _, [], rfl, hsecond, nofun⟩
  exact ⟨⟨start, generation, (hgiven "year" _).1 (.defined hlast), hruns⟩,
    (generate_starts_with { layeredSources with definitions := ["year=2", " =3"] }
      ⟨layered, #[]⟩).2 ⟨" =3", by simp, hmalformed⟩ ⟨"out"⟩ ["main"]⟩

end Generation

end Stencil
