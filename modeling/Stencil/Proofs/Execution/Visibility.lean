import Mathlib.Data.List.Forall2
import Stencil.Proofs.Execution.Trace

/-!
# What a run sees of the scopes

Two stacks of scopes agree if every name means the same in both, however the names are spread over
the scopes. Binding, declaring and pushing keep this. An operation asks the scopes for nothing but
what names mean, so in scopes that agree it takes the same step, and what it runs it runs in scopes
that agree (`step_agree`); hence whole runs do the same (`runMain_agree`).
-/

namespace Stencil

namespace Scopes

/-- Every name means the same in both. -/
def Agree (scopes scopes' : Scopes) : Prop :=
  ∀ name, scopes.get? name = scopes'.get? name

namespace Agree

variable {scopes scopes' : Scopes}

theorem get?_eq (h : scopes.Agree scopes') : scopes.get? = scopes'.get? :=
  funext h

theorem push (h : scopes.Agree scopes') : scopes.push.Agree scopes'.push := by
  intro name
  rw [get?_push, get?_push, h name]

theorem set (h : scopes.Agree scopes') (name : String) (value : Value) :
    (scopes.set name value).Agree (scopes'.set name value) := by
  intro other
  by_cases hother : other = name
  · rw [hother, get?_set_self, get?_set_self]
  · rw [get?_set_of_ne _ _ hother, get?_set_of_ne _ _ hother, h other]

theorem declare (h : scopes.Agree scopes') (names : List String) :
    (scopes.declare names).Agree (scopes'.declare names) := by
  intro name
  rw [get?_declare, get?_declare, h name]

end Agree

end Scopes

namespace Execution

/-- The same operations are referred to, each in scopes that agree. -/
abbrev AgreeAll : List (Scopes × String) → List (Scopes × String) → Prop :=
  List.Forall₂ fun reference reference' =>
    reference.1.Agree reference'.1 ∧ reference.2 = reference'.2

/-- The same is done, and the same operations are run then, each in scopes that agree. -/
inductive Step.Agree : Step → Step → Prop where
  | failed {events fault} : Step.Agree ⟨events, .error fault⟩ ⟨events, .error fault⟩
  | followed {events references references'} : AgreeAll references references' →
    Step.Agree ⟨events, .ok references⟩ ⟨events, .ok references'⟩

namespace Step.Agree

variable {step step' : Step}

theorem events_eq (h : step.Agree step') : step.events = step'.events := by
  cases h <;> rfl

theorem next_error (h : step.Agree step') {fault : Fault} (hnext : step.next = .error fault) :
    step'.next = .error fault := by
  cases h with
  | failed => exact hnext
  | followed => cases hnext

theorem next_ok (h : step.Agree step') {references : List (Scopes × String)}
    (hnext : step.next = .ok references) :
    ∃ references', step'.next = .ok references' ∧ AgreeAll references references' := by
  cases h with
  | failed => cases hnext
  | followed hagree =>
    cases hnext
    exact ⟨_, rfl, hagree⟩

theorem nothing (events : List Event) (result : Except Fault Unit) :
    Step.Agree ⟨events, result.map fun _ => []⟩ ⟨events, result.map fun _ => []⟩ := by
  cases result with
  | error fault => exact .failed
  | ok => exact .followed .nil

theorem prepend {events events' : List Event} {next next' : Except Fault (List (Scopes × String))}
    (before : List Event) (h : Step.Agree ⟨events, next⟩ ⟨events', next'⟩) :
    Step.Agree ⟨before ++ events, next⟩ ⟨before ++ events', next'⟩ := by
  cases h with
  | failed => exact .failed
  | followed hagree => exact .followed hagree

end Step.Agree

section step

variable {environment : Environment} {scopes scopes' : Scopes}

theorem agreeAll_map (h : scopes.Agree scopes') (references : List String) :
    AgreeAll (references.map (scopes, ·)) (references.map (scopes', ·)) := by
  induction references with
  | nil => exact .nil
  | cons reference rest ih => exact .cons ⟨h, rfl⟩ ih

theorem agreeAll_flatMap (h : scopes.Agree scopes') (elements : List Value) (placeholder : String)
    (operations : List String) :
    AgreeAll
      (elements.flatMap fun element => operations.map (scopes.push.set placeholder element, ·))
      (elements.flatMap fun element =>
        operations.map (scopes'.push.set placeholder element, ·)) := by
  induction elements with
  | nil => exact .nil
  | cons element elements ih =>
    have hinner : (scopes.push.set placeholder element).Agree
        (scopes'.push.set placeholder element) := h.push.set placeholder element
    exact List.rel_append (agreeAll_map hinner operations) ih

theorem outcomeOfTemplate_agree (h : scopes.Agree scopes') (path : Path)
    (content : Except Store.Fault String) (placeholders : List String)
    (modifiers : List Modifier) :
    outcomeOfTemplate scopes path content placeholders modifiers =
      outcomeOfTemplate scopes' path content placeholders modifiers := by
  unfold outcomeOfTemplate
  rw [(h.push.declare placeholders).get?_eq]

theorem performance_agree (h : scopes.Agree scopes') (identifier : String)
    (kind : Operation.Kind) :
    (environment.performance scopes identifier kind).Agree
      (environment.performance scopes' identifier kind) := by
  cases kind with
  | group operations => exact .followed (agreeAll_map h _)
  | selection input options default =>
    dsimp only [Environment.performance]
    rw [h input]
    split
    · exact .followed (agreeAll_map h [_])
    · exact .followed .nil
  | sequence input operations placeholder fallback =>
    dsimp only [Environment.performance]
    rw [h input]
    split
    · exact .followed .nil
    · exact .followed (agreeAll_map h _)
    · exact .followed (agreeAll_flatMap h _ _ _)
  | template file placeholders fallback modifiers =>
    dsimp only [Environment.performance]
    split
    · split
      · exact .followed (agreeAll_map h [_])
      · exact .failed
    · unfold eventsOfTemplate
      rw [outcomeOfTemplate_agree h]
      exact .nothing _ _

/-- In scopes that agree an operation takes the same step. -/
theorem step_agree (environment : Environment) (h : scopes.Agree scopes') (operation : Operation) :
    (environment.step scopes operation).Agree (environment.step scopes' operation) := by
  have hnames : environment.names scopes = environment.names scopes' := by
    funext name
    rw [Environment.names, Environment.names, h name]
  have hadmits : environment.admits scopes operation = environment.admits scopes' operation := by
    rw [Environment.admits, Environment.admits, hnames]
  have hdoubts : environment.doubts scopes operation = environment.doubts scopes' operation := by
    rw [Environment.doubts, Environment.doubts, hnames]
  unfold Environment.step
  rw [hadmits, hdoubts]
  split
  · exact .prepend _ (.prepend [_] (performance_agree h operation.identifier operation.kind))
  · exact .followed .nil

end step

/-- The same is to be done, in scopes that agree. -/
inductive Task.Agree : Task → Task → Prop where
  | run {scopes scopes' operation} : scopes.Agree scopes' →
    Task.Agree (.run scopes operation) (.run scopes' operation)
  | follow {parent references references'} : AgreeAll references references' →
    Task.Agree (.follow parent references) (.follow parent references')

/-- In scopes that agree the same is done. -/
theorem Executes.agree {environment : Environment} {task task' : Task} {trace : Trace}
    {result : Except Fault Unit} (h : Executes environment task trace result)
    (hagree : task.Agree task') : Executes environment task' trace result := by
  induction h generalizing task' with
  | @failed _ operation _ hnext =>
    cases hagree with
    | run hscopes =>
      have hstep := step_agree environment hscopes operation
      rw [hstep.events_eq]
      exact .failed (hstep.next_error hnext)
  | @followed _ operation _ _ _ hnext _ ih =>
    cases hagree with
    | run hscopes =>
      have hstep := step_agree environment hscopes operation
      obtain ⟨references', hnext', hreferences⟩ := hstep.next_ok hnext
      rw [hstep.events_eq]
      exact .followed hnext' (ih (.follow hreferences))
  | nil =>
    cases hagree with
    | follow hreferences =>
      cases hreferences
      exact .nil
  | missing hnone _ ih =>
    cases hagree with
    | follow hreferences =>
      obtain _ | ⟨⟨_, rfl⟩, hrest⟩ := hreferences
      exact .missing hnone (ih (.follow hrest))
  | found hsome _ _ ihrun ihrest =>
    cases hagree with
    | follow hreferences =>
      obtain _ | ⟨⟨hscopes, rfl⟩, hrest⟩ := hreferences
      exact .found hsome (ihrun (.run hscopes)) (ihrest (.follow hrest))
  | fault hsome _ ih =>
    cases hagree with
    | follow hreferences =>
      obtain _ | ⟨⟨hscopes, rfl⟩, _⟩ := hreferences
      exact .fault hsome (ih (.run hscopes))

theorem ExecutesMain.agree {environment : Environment} {scopes scopes' : Scopes} {main : String}
    {trace : Trace} {result : Except Fault Unit}
    (h : ExecutesMain environment scopes main trace result) (hscopes : scopes.Agree scopes') :
    ExecutesMain environment scopes' main trace result := by
  cases h with
  | undefined hnone => exact .undefined hnone
  | run hsome hexec => exact .run hsome (hexec.agree (.run hscopes))

/-- What a run shows of itself: its result, the output and the log after it. -/
def shownBy (environment : Environment) (target : Path) (main : String) (state : State) :
    Except Fault Unit × Output × Log :=
  let (result, after) := (runMain environment target main).run.run state
  (result, after.output, after.log)

/-- In scopes that agree a run shows the same. -/
theorem runMain_agree (environment : Environment) (target : Path) (main : String)
    {scopes scopes' : Scopes} (h : scopes.Agree scopes') (mode : Output.Mode) (output : Output)
    (log : Log) :
    shownBy environment target main ⟨scopes, mode, output, log⟩ =
      shownBy environment target main ⟨scopes', mode, output, log⟩ := by
  obtain ⟨trace, result, mode', hexec, hrun⟩ :=
    executesMain_of_runMain environment target main ⟨scopes, mode, output, log⟩
  obtain ⟨trace', result', mode'', hexec', hrun'⟩ :=
    executesMain_of_runMain environment target main ⟨scopes', mode, output, log⟩
  obtain ⟨rfl, rfl⟩ := (hexec.agree h).unique hexec'
  -- The events do not touch the scopes, so they leave the same output and log.
  have hafter := @State.afterAll_scopes target ⟨scopes, .replace, output, log⟩ scopes' trace.events
  unfold shownBy
  rw [hrun, hrun']
  dsimp only at hafter ⊢
  rw [hafter]

end Execution

end Stencil
