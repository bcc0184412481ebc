import Stencil.Proofs.Execution.Composition

/-!
# What a run does, step by step

The rules here say what a run does without saying that it ends. An operation does something itself
and then names the operations that it runs, each in the scopes in which it runs it
(`Environment.step`); those are followed one after the other, up to the first that fails
(`Executes`). What was done is the *trace*: the events, the references that were followed, and how
deeply runs of operations lay within each other.

Every run has a trace, it has one only, and the run does to its state what the trace says and has
its result (`executes_of_runMain`, `ExecutesMain.unique`).
-/

namespace Stencil.Execution

/-- What an operation does itself, and what it runs then: operations, each in its scopes. -/
structure Step where
  events : List Event
  next : Except Fault (List (Scopes × String))

/-- Tells that an operation is not there. -/
def Event.missing (parent reference : String) : Event :=
  .told ⟨.warn, .execution, "Missing operation: " ++ reference ++ " referenced by: " ++ parent⟩

namespace Environment

variable (environment : Environment)

/-- The references up to the first that leads nowhere, which is the last. -/
def upToMissing : List String → List String
  | [] => []
  | reference :: rest =>
    reference :: if environment.defines reference then upToMissing rest else []

/-- What an operation does that is not skipped. -/
def performance (scopes : Scopes) (identifier : String) : Operation.Kind → Step
  | .group operations => ⟨[], .ok <| (environment.upToMissing operations).map (scopes, ·)⟩
  | .selection input options default =>
    let text := (scopes.get? input).bind Value.text?
    match selected? options default text with
    | some reference => ⟨[], .ok [(scopes, reference)]⟩
    | none =>
      ⟨[.told ⟨.debug, .execution,
        "No option of selection: " ++ identifier ++ " matches value: " ++ shown text⟩], .ok []⟩
  | .sequence input operations placeholder fallback =>
    match elements? (scopes.get? input) with
    | none =>
      ⟨[.told ⟨.warn, .execution,
        "Input: " ++ input ++ " of sequence: " ++ identifier ++ " is not a collection: "
          ++ ((scopes.get? input).getD .null).json⟩], .ok []⟩
    | some [] => ⟨[], .ok (fallback.toList.map (scopes, ·))⟩
    | some elements =>
      ⟨[], .ok <| elements.flatMap fun element =>
        operations.map (scopes.push.set placeholder element, ·)⟩
  | .template file placeholders fallback modifiers =>
    let path := environment.templatePath file
    match environment.templates.read? path with
    | none =>
      match fallback with
      | some reference =>
        ⟨[.told ⟨.debug, .execution,
          "Template: " ++ path.text ++ " missing, using fallback: " ++ reference⟩],
          .ok [(scopes, reference)]⟩
      | none => ⟨[], .error (.missingTemplate path)⟩
    | some content =>
      ⟨eventsOfTemplate scopes path content placeholders modifiers,
        (outcomeOfTemplate scopes path content placeholders modifiers).result.map fun _ => []⟩

/-- What an operation does. It does nothing but tell so if its condition does not hold. -/
def step (scopes : Scopes) (operation : Operation) : Step :=
  if environment.admits scopes operation then
    let performed := environment.performance scopes operation.identifier operation.kind
    ⟨environment.doubts scopes operation ++
      .told ⟨.debug, .execution,
        "Running " ++ operation.kind.name ++ " operation: " ++ operation.identifier⟩ ::
      performed.events, performed.next⟩
  else
    ⟨environment.doubts scopes operation ++
      [.told ⟨.debug, .execution,
        "Skipping operation: " ++ operation.identifier ++ " (condition not met)"⟩], .ok []⟩

end Environment

/-- What was done. -/
structure Trace where
  events : List Event
  /-- The references that were followed, each with the operation that has it. -/
  calls : List (Operation × String)
  /-- How many operations were running at once, at most. -/
  depth : Nat

namespace Trace

/-- Nothing was done. -/
def empty : Trace := ⟨[], [], 0⟩

/-- What was done, and then more. -/
def andThen (first second : Trace) : Trace :=
  ⟨first.events ++ second.events, first.calls ++ second.calls, max first.depth second.depth⟩

@[simp] theorem empty_andThen (trace : Trace) : empty.andThen trace = trace := by
  simp [empty, andThen]

theorem andThen_assoc (first second third : Trace) :
    (first.andThen second).andThen third = first.andThen (second.andThen third) := by
  simp [andThen, Nat.max_assoc]

end Trace

/-- What is to be done. -/
inductive Task where
  /-- Runs an operation in scopes. -/
  | run (scopes : Scopes) (operation : Operation)
  /-- Follows references of an operation in turn, each in its scopes. -/
  | follow (parent : Operation) (references : List (Scopes × String))

/-- The task is done as the trace says and has the result. -/
inductive Executes (environment : Environment) : Task → Trace → Except Fault Unit → Prop
  /-- An operation that fails itself. -/
  | failed {scopes operation fault} :
    (environment.step scopes operation).next = .error fault →
    Executes environment (.run scopes operation)
      ⟨(environment.step scopes operation).events, [], 1⟩ (.error fault)
  /-- An operation that leaves the rest to others. -/
  | followed {scopes operation references trace result} :
    (environment.step scopes operation).next = .ok references →
    Executes environment (.follow operation references) trace result →
    Executes environment (.run scopes operation)
      ⟨(environment.step scopes operation).events ++ trace.events, trace.calls, trace.depth + 1⟩
      result
  /-- No reference is left. -/
  | nil {parent} : Executes environment (.follow parent []) .empty (.ok ())
  /-- A reference that leads nowhere is passed over. -/
  | missing {parent scopes reference rest trace result} :
    environment.operations.find? reference = none →
    Executes environment (.follow parent rest) trace result →
    Executes environment (.follow parent ((scopes, reference) :: rest))
      (.andThen ⟨[.missing parent.identifier reference], [(parent, reference)], 0⟩ trace) result
  /-- A reference that leads to an operation that succeeds. -/
  | found {parent scopes reference rest operation first second result} :
    environment.operations.find? reference = some operation →
    Executes environment (.run scopes operation) first (.ok ()) →
    Executes environment (.follow parent rest) second result →
    Executes environment (.follow parent ((scopes, reference) :: rest))
      (.andThen ⟨[], [(parent, reference)], 0⟩ (first.andThen second)) result
  /-- A reference that leads to an operation that fails. -/
  | fault {parent scopes reference rest operation trace fault} :
    environment.operations.find? reference = some operation →
    Executes environment (.run scopes operation) trace (.error fault) →
    Executes environment (.follow parent ((scopes, reference) :: rest))
      (.andThen ⟨[], [(parent, reference)], 0⟩ trace) (.error fault)

namespace Executes

variable {environment : Environment} {task : Task} {trace trace' : Trace}
  {result result' : Except Fault Unit}

/-- What is done is determined by the task. -/
theorem unique (h : Executes environment task trace result)
    (h' : Executes environment task trace' result') : trace = trace' ∧ result = result' := by
  induction h generalizing trace' result' with
  | failed hnext =>
    cases h' with
    | failed hnext' =>
      rw [hnext] at hnext'
      cases hnext'
      exact ⟨rfl, rfl⟩
    | followed hnext' =>
      rw [hnext] at hnext'
      cases hnext'
  | followed hnext _ ih =>
    cases h' with
    | failed hnext' =>
      rw [hnext] at hnext'
      cases hnext'
    | followed hnext' hfollow =>
      rw [hnext] at hnext'
      cases hnext'
      obtain ⟨rfl, rfl⟩ := ih hfollow
      exact ⟨rfl, rfl⟩
  | nil =>
    cases h'
    exact ⟨rfl, rfl⟩
  | missing hnone _ ih =>
    cases h' with
    | missing _ hrest =>
      obtain ⟨rfl, rfl⟩ := ih hrest
      exact ⟨rfl, rfl⟩
    | found hsome | fault hsome =>
      rw [hnone] at hsome
      cases hsome
  | found hsome _ _ ihrun ihrest =>
    cases h' with
    | missing hnone =>
      rw [hnone] at hsome
      cases hsome
    | found hsome' hrun hrest =>
      rw [hsome] at hsome'
      cases hsome'
      obtain ⟨rfl, -⟩ := ihrun hrun
      obtain ⟨rfl, rfl⟩ := ihrest hrest
      exact ⟨rfl, rfl⟩
    | fault hsome' hrun =>
      rw [hsome] at hsome'
      cases hsome'
      cases (ihrun hrun).2
  | fault hsome _ ih =>
    cases h' with
    | missing hnone =>
      rw [hnone] at hsome
      cases hsome
    | found hsome' hrun =>
      rw [hsome] at hsome'
      cases hsome'
      cases (ih hrun).2
    | fault hsome' hrun =>
      rw [hsome] at hsome'
      cases hsome'
      obtain ⟨rfl, hfault⟩ := ih hrun
      exact ⟨rfl, hfault⟩

/-- References that all succeed may be followed by others. -/
theorem append {parent : Operation} {first second : List (Scopes × String)}
    (h : Executes environment (.follow parent first) trace (.ok ()))
    (h' : Executes environment (.follow parent second) trace' result) :
    Executes environment (.follow parent (first ++ second)) (trace.andThen trace') result := by
  induction first generalizing trace with
  | nil =>
    cases h
    simpa using h'
  | cons reference rest ih =>
    cases h with
    | missing hnone hrest =>
      rw [Trace.andThen_assoc]
      exact .missing hnone (ih hrest)
    | found hsome hrun hrest =>
      rw [Trace.andThen_assoc, Trace.andThen_assoc]
      exact .found hsome hrun (ih hrest)

/-- After a fault no more references are followed. -/
theorem append_of_error {parent : Operation} {first : List (Scopes × String)} {fault : Fault}
    (h : Executes environment (.follow parent first) trace (.error fault))
    (second : List (Scopes × String)) :
    Executes environment (.follow parent (first ++ second)) trace (.error fault) := by
  induction first generalizing trace with
  | nil => cases h
  | cons reference rest ih =>
    cases h with
    | missing hnone hrest => exact .missing hnone (ih hrest)
    | found hsome hrun hrest => exact .found hsome hrun (ih hrest)
    | fault hsome hrun => exact .fault hsome hrun

end Executes

/-! ## Runs have traces -/

section

variable {environment : Environment} {target : Path} {parent : Operation}

/-- In the scopes the action does what following the references does. -/
def Follows (environment : Environment) (target : Path) (parent : Operation) (action : Run Unit)
    (scopes : Scopes) (references : List (Scopes × String)) : Prop :=
  ∃ trace result, Executes environment (.follow parent references) trace result ∧
    Run.Yields target action scopes result trace.events

/-- In all scopes a run of what `references` names does what following the reference does, and it
tells whether the reference leads to an operation. -/
def ReferencesFollow (environment : Environment) (target : Path) (parent : Operation)
    (references : List String)
    (run : (reference : String) → reference ∈ references → Run Bool) : Prop :=
  ∀ scopes reference (hmem : reference ∈ references),
    ∃ trace result, Executes environment (.follow parent [(scopes, reference)]) trace result ∧
      Run.Yields target (run reference hmem) scopes
        (result.map fun _ => environment.defines reference) trace.events

namespace Follows

variable {scopes : Scopes} {references : List (Scopes × String)}

theorem nil : Follows environment target parent (pure ()) scopes [] :=
  ⟨_, _, .nil, .pure ()⟩

theorem bind {first second : List (Scopes × String)} {action next : Run Unit}
    (h : Follows environment target parent action scopes first)
    (h' : Follows environment target parent next scopes second) :
    Follows environment target parent (action >>= fun _ => next) scopes (first ++ second) := by
  obtain ⟨trace, result, hexec, hyields⟩ := h
  cases result with
  | error fault => exact ⟨_, _, hexec.append_of_error second, hyields.bind_error⟩
  | ok =>
    obtain ⟨trace', result', hexec', hyields'⟩ := h'
    exact ⟨_, _, hexec.append hexec', hyields.bind_ok hyields'⟩

theorem within {action : Run Unit} {change : Scopes → Scopes}
    (hchange : (change scopes.push).pop = scopes)
    (h : Follows environment target parent action (change scopes.push) references) :
    Follows environment target parent
      (Run.within (Run.modifyScopes change >>= fun _ => action)) scopes references := by
  obtain ⟨trace, result, hexec, hyields⟩ := h
  exact ⟨trace, result, hexec, hyields.within hchange⟩

theorem forM {items : List α} {action : α → Run Unit} {own : α → List (Scopes × String)}
    (h : ∀ item ∈ items, Follows environment target parent (action item) scopes (own item)) :
    Follows environment target parent (items.forM action) scopes (items.flatMap own) := by
  induction items with
  | nil => exact .nil
  | cons item items ih =>
    have hrest := ih fun other hmem => h other (List.mem_cons_of_mem _ hmem)
    exact (h item List.mem_cons_self).bind hrest

end Follows

variable {scopes : Scopes} {references : List String}
  {run : (reference : String) → reference ∈ references → Run Bool}

theorem runUntilMissing_follows (h : ReferencesFollow environment target parent references run) :
    Follows environment target parent (runUntilMissing references run) scopes
      ((environment.upToMissing references).map (scopes, ·)) := by
  induction references with
  | nil => exact .nil
  | cons reference rest ih =>
    obtain ⟨trace, result, hexec, hyields⟩ := h scopes reference List.mem_cons_self
    have hrest : Follows environment target parent
        (if environment.defines reference then
          runUntilMissing rest fun other hmem => run other (List.mem_cons_of_mem _ hmem)
        else pure ()) scopes
        ((if environment.defines reference then environment.upToMissing rest else []).map
          (scopes, ·)) := by
      split
      · exact ih fun scopes other hmem => h scopes other (List.mem_cons_of_mem _ hmem)
      · exact .nil
    unfold runUntilMissing Environment.upToMissing
    cases result with
    | error fault => exact ⟨_, _, hexec.append_of_error _, hyields.bind_error⟩
    | ok =>
      obtain ⟨trace', result', hexec', hyields'⟩ := hrest
      exact ⟨_, _, hexec.append hexec', hyields.bind_ok hyields'⟩

/-- Whether the operation is there does not matter to a run in place of another one. -/
theorem choice_follows (h : ReferencesFollow environment target parent references run)
    {reference : String} (hmem : reference ∈ references) :
    Follows environment target parent (discard (run reference hmem)) scopes
      [(scopes, reference)] := by
  obtain ⟨trace, result, hexec, hyields⟩ := h scopes reference hmem
  refine ⟨trace, result, hexec, ?_⟩
  cases result with
  | error fault => exact hyields.discard
  | ok => exact hyields.discard

theorem runAll_follows (h : ReferencesFollow environment target parent references run) :
    Follows environment target parent (runAll references run) scopes
      (references.map (scopes, ·)) := by
  induction references with
  | nil => exact .nil
  | cons reference rest ih =>
    have hfirst : Follows environment target parent
        (discard (run reference List.mem_cons_self)) scopes [(scopes, reference)] :=
      choice_follows h List.mem_cons_self
    exact hfirst.bind (ih fun scopes other hmem => h scopes other (List.mem_cons_of_mem _ hmem))

/-- In the scopes the action does what the step says. -/
def Takes (environment : Environment) (target : Path) (parent : Operation) (action : Run Unit)
    (scopes : Scopes) (step : Step) : Prop :=
  match step.next with
  | .error fault => Run.Yields target action scopes (.error fault) step.events
  | .ok references =>
    ∃ trace result, Executes environment (.follow parent references) trace result ∧
      Run.Yields target action scopes result (step.events ++ trace.events)

namespace Takes

variable {action : Run Unit} {references : List (Scopes × String)}

theorem of_follows (h : Follows environment target parent action scopes references) :
    Takes environment target parent action scopes ⟨[], .ok references⟩ := h

theorem of_yields {result : Except Fault Unit} {events : List Event}
    (h : Run.Yields target action scopes result events) :
    Takes environment target parent action scopes ⟨events, result.map fun _ => []⟩ := by
  cases result with
  | error fault => exact h
  | ok =>
    refine ⟨.empty, .ok (), .nil, ?_⟩
    rwa [Trace.empty, List.append_nil]

/-- What is done before a step is done by the step with it. -/
theorem prepend {first : Run α} {next : α → Run Unit} {value : α} {events told : List Event}
    {rest : Except Fault (List (Scopes × String))}
    (hfirst : Run.Yields target first scopes (.ok value) events)
    (hnext : Takes environment target parent (next value) scopes ⟨told, rest⟩) :
    Takes environment target parent (first >>= next) scopes ⟨events ++ told, rest⟩ := by
  cases rest with
  | error fault => exact hfirst.bind_ok hnext
  | ok references =>
    obtain ⟨trace, result, hexec, hyields⟩ := hnext
    refine ⟨trace, result, hexec, ?_⟩
    rw [List.append_assoc]
    exact hfirst.bind_ok hyields

end Takes

theorem perform_takes (kind : Operation.Kind)
    {run : (reference : String) → reference ∈ kind.references → Run Bool}
    (h : ReferencesFollow environment target parent kind.references run) :
    Takes environment target parent (perform environment target parent.identifier kind run) scopes
      (environment.performance scopes parent.identifier kind) := by
  cases kind with
  | group operations => exact .of_follows (runUntilMissing_follows h)
  | selection input options default =>
    refine .prepend .scopes_ok ?_
    dsimp only [Environment.performance]
    split
    · next reference hselected =>
      simp only [hselected]
      exact .of_follows (choice_follows h _)
    · next hselected =>
      simp only [hselected]
      exact .of_yields (.tell _ _ _)
  | sequence input operations placeholder fallback =>
    refine .prepend .scopes_ok ?_
    dsimp only [Environment.performance]
    cases elements? (scopes.get? input) with
    | none => exact .of_yields (.tell _ _ _)
    | some elements =>
      cases elements with
      | nil =>
        dsimp only
        split
        · exact .of_follows (choice_follows h _)
        · exact .of_follows .nil
      | cons element elements =>
        refine .of_follows <| .forM fun element _ =>
          .within (Scopes.pop_set_push ..) (runAll_follows ?_)
        exact fun scopes reference hmem => h scopes reference (List.mem_append_left _ hmem)
  | template file placeholders fallback modifiers =>
    unfold perform Environment.performance
    dsimp only [Environment.templatePath]
    cases hread : environment.templates.read? (environment.templates.directory.join ⟨file⟩) with
    | none =>
      dsimp only
      split
      · exact .prepend (.tell _ _ _) (.of_follows (choice_follows h _))
      · exact .of_yields (.throw _)
    | some content => exact .of_yields (renderTemplate_yields _ _ _ _)

/-- In the scopes the operation does what an execution of it says. -/
def Traced (environment : Environment) (target : Path) (operation : Operation) (action : Run Unit)
    (scopes : Scopes) : Prop :=
  ∃ trace result, Executes environment (.run scopes operation) trace result ∧
    Run.Yields target action scopes result trace.events

theorem Traced.of_takes {operation : Operation} {action : Run Unit}
    (h : Takes environment target operation action scopes (environment.step scopes operation)) :
    Traced environment target operation action scopes := by
  unfold Takes at h
  split at h
  · next fault hnext => exact ⟨_, _, .failed hnext, h⟩
  · next references hnext =>
    obtain ⟨trace, result, hexec, hyields⟩ := h
    exact ⟨_, _, .followed hnext hexec, hyields⟩

theorem runReference_follows {operation : Operation} {reference : String}
    (h : ∀ other (hfind : environment.operations.find? reference = some other),
      Traced environment target other
        (runOperation environment target other (OperationSet.mem_of_find? hfind).1) scopes) :
    ∃ trace result,
      Executes environment (.follow operation [(scopes, reference)]) trace result ∧
        Run.Yields target (runReference environment target operation.identifier reference) scopes
          (result.map fun _ => environment.defines reference) trace.events := by
  unfold runReference
  split
  · next other hfind =>
    obtain ⟨trace, result, hexec, hyields⟩ := h other hfind
    have hdefined : environment.defines reference = true := by
      rw [Environment.defines, hfind, Option.isSome_some]
    rw [hdefined]
    cases result with
    | error fault => exact ⟨_, _, .fault hfind hexec, hyields.bind_error⟩
    | ok =>
      exact ⟨_, _, .found hfind hexec .nil, hyields.bind_ok (.pure true)⟩
  · next hnone =>
    have hdefined : environment.defines reference = false := by
      rw [Environment.defines, hnone, Option.isSome_none]
    rw [hdefined]
    exact ⟨_, _, .missing hnone .nil, .bind_ok (.tell _ _ _) (.pure false)⟩

/-- An operation does what its rules say, and its rules come to an end. -/
theorem runOperation_traced (operation : Operation)
    (hmem : operation ∈ environment.operations.operations) (scopes : Scopes) :
    Traced environment target operation (runOperation environment target operation hmem)
      scopes := by
  induction hrank : environment.operations.rank operation.identifier using
    Nat.strongRecOn generalizing operation scopes with
  | _ rank ih =>
    have hreferences : ReferencesFollow environment target operation operation.kind.references
        fun reference _ => runReference environment target operation.identifier reference := by
      intro scopes reference href
      refine runReference_follows fun other hfind => ?_
      have hlt : environment.operations.rank other.identifier < rank :=
        hrank ▸ OperationSet.rank_lt_rank hmem hfind href
      exact ih _ hlt other (OperationSet.mem_of_find? hfind).1 scopes rfl
    refine .of_takes ?_
    rw [runOperation_eq]
    unfold Environment.step
    split
    · next hadmits =>
      refine .prepend (applies_yields operation) ?_
      rw [if_pos hadmits]
      exact .prepend (.tell _ _ _) (perform_takes operation.kind hreferences)
    · next hadmits =>
      refine .prepend (applies_yields operation) ?_
      rw [if_neg hadmits]
      exact .of_yields (.tell _ _ _)

end

/-! ## Runs of a main operation -/

/-- The operation of an identifier is run as the trace says and with the result. -/
inductive ExecutesMain (environment : Environment) (scopes : Scopes) (main : String) :
    Trace → Except Fault Unit → Prop
  /-- There is no such operation. -/
  | undefined :
    environment.operations.find? main = none →
    ExecutesMain environment scopes main .empty (.error (.undefinedOperation main))
  /-- The operation is there. -/
  | run {operation trace result} :
    environment.operations.find? main = some operation →
    Executes environment (.run scopes operation) trace result →
    ExecutesMain environment scopes main trace result

theorem ExecutesMain.unique {environment : Environment} {scopes : Scopes} {main : String}
    {trace trace' : Trace} {result result' : Except Fault Unit}
    (h : ExecutesMain environment scopes main trace result)
    (h' : ExecutesMain environment scopes main trace' result') :
    trace = trace' ∧ result = result' := by
  cases h with
  | undefined hnone =>
    cases h' with
    | undefined => exact ⟨rfl, rfl⟩
    | run hsome =>
      rw [hnone] at hsome
      cases hsome
  | run hsome hexec =>
    cases h' with
    | undefined hnone =>
      rw [hnone] at hsome
      cases hsome
    | run hsome' hexec' =>
      rw [hsome] at hsome'
      cases hsome'
      exact hexec.unique hexec'

section

variable {environment : Environment} {target : Path}

theorem runMain_of_find? {main : String} {operation : Operation}
    (hfind : environment.operations.find? main = some operation) :
    runMain environment target main =
      (modify fun state => { state with mode := .replace }) >>= fun _ =>
        runOperation environment target operation (OperationSet.mem_of_find? hfind).1 := by
  unfold runMain
  split
  · next operation' hfind' =>
    cases hfind.symm.trans hfind'
    rfl
  · next hnone => cases hfind.symm.trans hnone

theorem runMain_of_none {main : String} (hfind : environment.operations.find? main = none) :
    runMain environment target main = throw (.undefinedOperation main) := by
  unfold runMain
  split
  · next hsome => cases hfind.symm.trans hsome
  · rfl

/-- A run of an operation that is there has a trace, and does what its events say if the first of
them that writes replaces what is there. -/
theorem executes_of_runMain (target : Path) {main : String} {operation : Operation}
    (hfind : environment.operations.find? main = some operation) (state : State) :
    ∃ trace result, Executes environment (.run state.scopes operation) trace result ∧
      (runMain environment target main).run.run state =
        (result, { state with mode := .replace }.afterAll target trace.events) := by
  obtain ⟨trace, result, hexec, hyields⟩ : Traced environment target operation
      (runOperation environment target operation (OperationSet.mem_of_find? hfind).1)
      state.scopes := runOperation_traced operation _ state.scopes
  refine ⟨trace, result, hexec, ?_⟩
  rw [runMain_of_find? hfind, bind_run]
  exact hyields { state with mode := .replace } rfl

end

/-- A run has a trace, whose result it has, and apart from the mode it leaves the state as the
events of the trace do if the first of them that writes replaces what is there. -/
theorem executesMain_of_runMain (environment : Environment) (target : Path) (main : String)
    (state : State) :
    ∃ trace result mode, ExecutesMain environment state.scopes main trace result ∧
      (runMain environment target main).run.run state =
        (result, { { state with mode := .replace }.afterAll target trace.events with mode }) := by
  cases hfind : environment.operations.find? main with
  | some operation =>
    obtain ⟨trace, result, hexec, hrun⟩ := executes_of_runMain target hfind state
    let after := { state with mode := .replace }.afterAll target trace.events
    exact ⟨trace, result, after.mode, .run hfind hexec, hrun⟩
  | none =>
    refine ⟨_, _, state.mode, .undefined hfind, ?_⟩
    rw [runMain_of_none hfind]
    rfl

end Stencil.Execution
