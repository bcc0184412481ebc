import Stencil.Proofs.Execution.Trace

/-!
# Where faults come from

A run comes to operations one after the other, each in scopes (`ComesTo`). Only templates fail, and
only for want of their file or for what is in it (`Fails`); a condition without a value is taken as
one that does not hold, and references that lead nowhere are passed over. So a run fails exactly if
it comes to a template that fails, and with its fault (`exists_executes_error_iff`).
-/

namespace Stencil

namespace Execution

/-- While the task is done, the operation is come to in the scopes; whether it is run depends on its
condition. -/
inductive ComesTo (environment : Environment) : Task → Scopes → Operation → Prop
  /-- The operation itself is to be run. -/
  | here {scopes operation} : ComesTo environment (.run scopes operation) scopes operation
  /-- An operation leaves the rest to others. -/
  | followed {scopes operation references scopes' operation'} :
    (environment.step scopes operation).next = .ok references →
    ComesTo environment (.follow operation references) scopes' operation' →
    ComesTo environment (.run scopes operation) scopes' operation'
  /-- The first reference leads there. -/
  | first {parent scopes reference rest operation scopes' operation'} :
    environment.operations.find? reference = some operation →
    ComesTo environment (.run scopes operation) scopes' operation' →
    ComesTo environment (.follow parent ((scopes, reference) :: rest)) scopes' operation'
  /-- The first reference leads nowhere, and a later one there. -/
  | missing {parent scopes reference rest scopes' operation'} :
    environment.operations.find? reference = none →
    ComesTo environment (.follow parent rest) scopes' operation' →
    ComesTo environment (.follow parent ((scopes, reference) :: rest)) scopes' operation'
  /-- The first reference leads to an operation that succeeds, and a later one there. -/
  | found {parent scopes reference rest operation trace scopes' operation'} :
    environment.operations.find? reference = some operation →
    Executes environment (.run scopes operation) trace (.ok ()) →
    ComesTo environment (.follow parent rest) scopes' operation' →
    ComesTo environment (.follow parent ((scopes, reference) :: rest)) scopes' operation'

/-- What an operation does fails itself in the scopes: a template whose file is missing and that has
no fallback, or whose file is there and cannot be read or rendered. -/
inductive Fails (environment : Environment) (scopes : Scopes) : Operation.Kind → Fault → Prop
  | missing {file placeholders modifiers} :
    environment.templates.read? (environment.templatePath file) = none →
    Fails environment scopes (.template file placeholders none modifiers)
      (.missingTemplate (environment.templatePath file))
  | unreadable {file placeholders fallback modifiers fault} :
    environment.templates.read? (environment.templatePath file) = some (.error fault) →
    Fails environment scopes (.template file placeholders fallback modifiers) (.unreadable fault)
  | rejected {file placeholders fallback modifiers template fault} :
    environment.templates.read? (environment.templatePath file) = some (.ok template) →
    Template.render (scopes.push.declare placeholders).get? template = .error fault →
    Fails environment scopes (.template file placeholders fallback modifiers)
      (.template (environment.templatePath file) fault)

section step

variable {environment : Environment} {scopes : Scopes}

/-- What is run is there. -/
theorem not_fails_undefinedOperation {kind : Operation.Kind} {identifier : String} :
    ¬ Fails environment scopes kind (.undefinedOperation identifier) :=
  nofun

theorem result_outcomeOfTemplate_eq_error_iff {path : Path} {content : Except Store.Fault String}
    {placeholders : List String} {modifiers : List Modifier} {fault : Fault} :
    (outcomeOfTemplate scopes path content placeholders modifiers).result = .error fault ↔
      (∃ fault', content = .error fault' ∧ fault = .unreadable fault') ∨
        ∃ template fault', content = .ok template ∧
          Template.render (scopes.push.declare placeholders).get? template = .error fault' ∧
          fault = .template path fault' := by
  cases content with
  | error fault' => simp [outcomeOfTemplate, eq_comm]
  | ok template =>
    rw [outcomeOfTemplate]
    cases hrender : Template.render (scopes.push.declare placeholders).get? template <;>
      simp [hrender, eq_comm]

theorem fails_iff_of_content {file : String} {content : Except Store.Fault String}
    {placeholders : List String} {fallback : Option String} {modifiers : List Modifier}
    {fault : Fault}
    (hread : environment.templates.read? (environment.templatePath file) = some content) :
    Fails environment scopes (.template file placeholders fallback modifiers) fault ↔
      (outcomeOfTemplate scopes (environment.templatePath file) content placeholders
        modifiers).result = .error fault := by
  rw [result_outcomeOfTemplate_eq_error_iff]
  constructor
  · rintro (hnone | hread' | ⟨hread', hrender⟩)
    · cases hread.symm.trans hnone
    · cases hread.symm.trans hread'
      exact .inl ⟨_, rfl, rfl⟩
    · cases hread.symm.trans hread'
      exact .inr ⟨_, _, rfl, hrender, rfl⟩
  · rintro (⟨fault', rfl, rfl⟩ | ⟨template, fault', rfl, hrender, rfl⟩)
    · exact .unreadable hread
    · exact .rejected hread hrender

theorem fails_iff_of_none {file : String} {placeholders : List String} {fallback : Option String}
    {modifiers : List Modifier} {fault : Fault}
    (hread : environment.templates.read? (environment.templatePath file) = none) :
    Fails environment scopes (.template file placeholders fallback modifiers) fault ↔
      fallback = none ∧ fault = .missingTemplate (environment.templatePath file) := by
  constructor
  · rintro (_ | hread' | ⟨hread', -⟩)
    · exact ⟨rfl, rfl⟩
    · cases hread.symm.trans hread'
    · cases hread.symm.trans hread'
  · rintro ⟨rfl, rfl⟩
    exact .missing hread

theorem performance_next_eq_error_iff (identifier : String) {kind : Operation.Kind}
    {fault : Fault} :
    (environment.performance scopes identifier kind).next = .error fault ↔
      Fails environment scopes kind fault := by
  cases kind with
  | group operations => exact iff_of_false nofun nofun
  | selection input options default =>
    refine iff_of_false ?_ nofun
    dsimp only [Environment.performance]
    split <;> nofun
  | sequence input operations placeholder fallback =>
    refine iff_of_false ?_ nofun
    dsimp only [Environment.performance]
    split <;> nofun
  | template file placeholders fallback modifiers =>
    dsimp only [Environment.performance]
    cases hread : environment.templates.read? (environment.templatePath file) with
    | none =>
      rw [fails_iff_of_none hread]
      cases fallback <;> simp [eq_comm]
    | some content =>
      rw [fails_iff_of_content hread]
      exact map_eq_error_iff

/-- An operation fails itself only if its condition holds. -/
theorem step_next_eq_error_iff {operation : Operation} {fault : Fault} :
    (environment.step scopes operation).next = .error fault ↔
      environment.admits scopes operation = true ∧
        Fails environment scopes operation.kind fault := by
  unfold Environment.step
  split
  · next hadmits =>
    rw [hadmits, ← performance_next_eq_error_iff operation.identifier]
    exact (and_iff_right rfl).symm
  · next hadmits => exact iff_of_false nofun fun h => hadmits h.1

end step

section executes

variable {environment : Environment} {task : Task}

theorem Executes.exists_comesTo {trace : Trace} {result : Except Fault Unit} {fault : Fault}
    (h : Executes environment task trace result) (hfault : result = .error fault) :
    ∃ scopes operation, ComesTo environment task scopes operation ∧
      (environment.step scopes operation).next = .error fault := by
  induction h with
  | @failed scopes operation _ hnext =>
    cases hfault
    exact ⟨scopes, operation, .here, hnext⟩
  | followed hnext _ ih =>
    obtain ⟨scopes, operation, hcomes, hfails⟩ := ih hfault
    exact ⟨scopes, operation, .followed hnext hcomes, hfails⟩
  | nil => cases hfault
  | missing hnone _ ih =>
    obtain ⟨scopes, operation, hcomes, hfails⟩ := ih hfault
    exact ⟨scopes, operation, .missing hnone hcomes, hfails⟩
  | found hsome hrun _ _ ih =>
    obtain ⟨scopes, operation, hcomes, hfails⟩ := ih hfault
    exact ⟨scopes, operation, .found hsome hrun hcomes, hfails⟩
  | fault hsome _ ih =>
    obtain ⟨scopes, operation, hcomes, hfails⟩ := ih hfault
    exact ⟨scopes, operation, .first hsome hcomes, hfails⟩

theorem ComesTo.exists_executes {scopes : Scopes} {operation : Operation} {fault : Fault}
    (h : ComesTo environment task scopes operation)
    (hfails : (environment.step scopes operation).next = .error fault) :
    ∃ trace, Executes environment task trace (.error fault) := by
  induction h with
  | here => exact ⟨_, .failed hfails⟩
  | followed hnext _ ih =>
    obtain ⟨trace, hexec⟩ := ih hfails
    exact ⟨_, .followed hnext hexec⟩
  | first hsome _ ih =>
    obtain ⟨trace, hexec⟩ := ih hfails
    exact ⟨_, .fault hsome hexec⟩
  | missing hnone _ ih =>
    obtain ⟨trace, hexec⟩ := ih hfails
    exact ⟨_, .missing hnone hexec⟩
  | found hsome hrun _ ih =>
    obtain ⟨trace, hexec⟩ := ih hfails
    exact ⟨_, .found hsome hrun hexec⟩

/-- What fails is a template that is come to while its condition holds. -/
theorem exists_executes_error_iff {fault : Fault} :
    (∃ trace, Executes environment task trace (.error fault)) ↔
      ∃ scopes operation, ComesTo environment task scopes operation ∧
        environment.admits scopes operation = true ∧
        Fails environment scopes operation.kind fault := by
  simp only [← step_next_eq_error_iff]
  constructor
  · rintro ⟨trace, hexec⟩
    exact hexec.exists_comesTo rfl
  · rintro ⟨scopes, operation, hcomes, hfails⟩
    exact hcomes.exists_executes hfails

end executes

end Execution

end Stencil
