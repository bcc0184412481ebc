import Stencil.Proofs.Execution.Failure

/-!
# Conditions without a value

A condition may have no value where an operation is come to. The operation is skipped then, as it is
with a condition that does not hold, and the log tells why; nothing else becomes of it
(`step_withCondition`). So a run is the same with conditions that settle those of its operations,
that is, have their values where they have one and do not hold where they have none. The conditions
may be given anew at each place that the run comes to (`Executes.settled`); if they are the same at
all places, the run is that of a set of operations that has them (`ExecutesWith.exists_executes`).

Together with where faults come from, this says that no condition makes a run fail
(`runMain_fails_in_templates`).
-/

namespace Stencil

/-- The operation with another condition. -/
def Operation.withCondition (operation : Operation) (condition : Option Condition) : Operation :=
  { operation with condition }

namespace OperationSet

/-- The same operations with other conditions. -/
def withConditions (set : OperationSet) (conditions : Operation → Option Condition) :
    OperationSet where
  operations := set.operations.map fun operation => operation.withCondition (conditions operation)
  distinct := by
    rw [List.map_map]
    exact set.distinct
  order := set.order
  ordered := by
    simp only [List.forall_mem_map]
    exact set.ordered

theorem find?_withConditions (set : OperationSet) (conditions : Operation → Option Condition)
    (identifier : String) :
    (set.withConditions conditions).find? identifier = (set.find? identifier).map fun operation =>
      operation.withCondition (conditions operation) :=
  List.find?_map ..

theorem find?_eq_none_iff {set : OperationSet} {identifier : String} :
    set.find? identifier = none ↔ identifier ∉ set.identifiers := by
  rw [find?, List.find?_eq_none, identifiers, List.mem_map]
  simp

end OperationSet

namespace Execution

/-- Whether a condition holds in the scopes, or why it has no value. Without a condition nothing
stands against it. -/
def Environment.verdict (environment : Environment) (scopes : Scopes) :
    Option Condition → Except Condition.EvaluationFault Bool
  | none => .ok true
  | some condition => condition.holds (environment.names scopes)

/-- In the scopes the second condition has the value of the first, or does not hold if the first has
none. -/
structure Settles (environment : Environment) (scopes : Scopes)
    (condition condition' : Option Condition) : Prop where
  of_ok : ∀ holds, environment.verdict scopes condition = .ok holds →
    environment.verdict scopes condition' = .ok holds
  of_error : ∀ fault, environment.verdict scopes condition = .error fault →
    environment.verdict scopes condition' = .ok false

/-- The condition of an operation, or one that does not hold where it has no value. -/
def Environment.orFalse (environment : Environment) (scopes : Scopes) (operation : Operation) :
    Option Condition :=
  match environment.verdict scopes operation.condition with
  | .ok _ => operation.condition
  | .error _ => some ⟨"False", .literal (.bool false)⟩

theorem settles_orFalse (environment : Environment) (scopes : Scopes) (operation : Operation) :
    Settles environment scopes operation.condition (environment.orFalse scopes operation) := by
  unfold Environment.orFalse
  split
  · next holds hown =>
    refine ⟨fun _ h => h, fun fault h => ?_⟩
    rw [hown] at h
    cases h
  · next fault hown =>
    refine ⟨fun holds h => ?_, fun _ _ => rfl⟩
    rw [hown] at h
    cases h

/-! ## What is told of conditions -/

/-- What records begin with that tell that a condition has no value. -/
def doubtful : String :=
  "Unable to evaluate condition: "

/-- Whether the record tells that a condition has no value. -/
def IsDoubt (record : Log.Record) : Prop :=
  record.level = .warn ∧ record.channel = .execution ∧ doubtful.toList <+: record.text.toList

instance (record : Log.Record) : Decidable (IsDoubt record) :=
  inferInstanceAs (Decidable (_ ∧ _ ∧ _))

/-- Whether the event is none that tells that a condition has no value. -/
def Event.isAssured : Event → Bool
  | .told record => ¬ IsDoubt record
  | .wrote _ => true

theorem Event.isAssured_of_level {level : Log.Level} (channel : Log.Channel) (text : String)
    (h : level ≠ .warn) : isAssured (.told ⟨level, channel, text⟩) = true :=
  decide_eq_true fun hdoubt => h hdoubt.1

theorem Event.isAssured_of_head {level : Log.Level} {channel : Log.Channel} {text : String}
    (h : text.toList.head? ≠ some 'U') : isAssured (.told ⟨level, channel, text⟩) = true := by
  refine decide_eq_true fun hdoubt => h ?_
  have hhead : doubtful.toList.head? = some 'U' := by decide
  obtain ⟨rest, hrest⟩ := hdoubt.2.2
  rw [← hrest, List.head?_append, hhead, Option.some_or]

/-- The events other than those that tell that a condition has no value. -/
def Event.assured (events : List Event) : List Event :=
  events.filter isAssured

section

variable {environment : Environment} {scopes : Scopes}

theorem Event.assured_append (first second : List Event) :
    assured (first ++ second) = assured first ++ assured second :=
  List.filter_append ..

theorem Event.assured_cons_of_isAssured {event : Event} (h : event.isAssured = true)
    (events : List Event) : assured (event :: events) = event :: assured events :=
  List.filter_cons_of_pos h

theorem Event.assured_cons_of_not {event : Event} (h : event.isAssured = false)
    (events : List Event) : assured (event :: events) = assured events :=
  List.filter_cons_of_neg (by simp [h])

theorem Event.assured_eq_self {events : List Event}
    (h : ∀ event ∈ events, event.isAssured = true) : assured events = events :=
  List.filter_eq_self.2 h

theorem isAssured_of_mem_performance (scopes : Scopes) (identifier : String)
    (kind : Operation.Kind) :
    ∀ event ∈ (environment.performance scopes identifier kind).events,
      event.isAssured = true := by
  cases kind with
  | group operations => exact List.forall_mem_nil _
  | selection input options default =>
    dsimp only [Environment.performance]
    split
    · exact List.forall_mem_nil _
    · exact List.forall_mem_singleton.2 (Event.isAssured_of_level _ _ nofun)
  | sequence input operations placeholder fallback =>
    dsimp only [Environment.performance]
    split
    · exact List.forall_mem_singleton.2 (Event.isAssured_of_head (by simp))
    · exact List.forall_mem_nil _
    · exact List.forall_mem_nil _
  | template file placeholders fallback modifiers =>
    dsimp only [Environment.performance]
    split
    · split
      · exact List.forall_mem_singleton.2 (Event.isAssured_of_level _ _ nofun)
      · exact List.forall_mem_nil _
    · rw [eventsOfTemplate, List.forall_mem_cons]
      refine ⟨Event.isAssured_of_level _ _ nofun, ?_⟩
      split
      · exact List.forall_mem_singleton.2 rfl
      · exact List.forall_mem_nil _

theorem assured_doubts (operation : Operation) :
    Event.assured (environment.doubts scopes operation) = [] := by
  refine List.filter_eq_nil_iff.2 ?_
  unfold Environment.doubts
  split
  · exact List.forall_mem_nil _
  · split
    · exact List.forall_mem_nil _
    · refine List.forall_mem_singleton.2 ?_
      rw [Event.isAssured, decide_eq_true_eq, Decidable.not_not]
      refine ⟨rfl, rfl, ?_⟩
      simp only [String.toList_append, List.append_assoc]
      exact List.prefix_append _ _

theorem assured_missing (parent reference : String) :
    Event.assured [.missing parent reference] = [.missing parent reference] := by
  refine Event.assured_eq_self (List.forall_mem_singleton.2 ?_)
  exact Event.isAssured_of_head (by simp)

end

/-! ## Steps with other conditions -/

section step

variable {environment : Environment} {scopes : Scopes}

theorem admits_eq (operation : Operation) :
    environment.admits scopes operation =
      match environment.verdict scopes operation.condition with
      | .ok holds => holds
      | .error _ => false := by
  unfold Environment.admits Environment.verdict
  cases operation.condition <;> rfl

theorem doubts_of_verdict {operation : Operation} {holds : Bool}
    (h : environment.verdict scopes operation.condition = .ok holds) :
    environment.doubts scopes operation = [] := by
  unfold Environment.doubts
  unfold Environment.verdict at h
  cases hcondition : operation.condition with
  | none => rfl
  | some condition =>
    rw [hcondition] at h
    dsimp only at h ⊢
    rw [h]

/-- A condition that settles another has a value. -/
theorem Settles.verdict_eq {operation : Operation} {condition : Option Condition}
    (h : Settles environment scopes operation.condition condition) :
    environment.verdict scopes condition = .ok (environment.admits scopes operation) := by
  rw [admits_eq]
  cases hown : environment.verdict scopes operation.condition with
  | ok holds => exact h.of_ok holds hown
  | error fault => exact h.of_error fault hown

/-- Whether the condition holds decides what an operation does, apart from what is told of it. -/
theorem exists_step_eq {operation : Operation} {condition : Option Condition}
    (h : environment.admits scopes (operation.withCondition condition) =
      environment.admits scopes operation) :
    ∃ events next, (∀ event ∈ events, event.isAssured = true) ∧
      environment.step scopes operation =
        ⟨environment.doubts scopes operation ++ events, next⟩ ∧
      environment.step scopes (operation.withCondition condition) =
        ⟨environment.doubts scopes (operation.withCondition condition) ++ events, next⟩ := by
  unfold Environment.step
  rw [h]
  split
  · refine ⟨_, _, ?_, rfl, rfl⟩
    rw [List.forall_mem_cons]
    exact ⟨Event.isAssured_of_level _ _ nofun, isAssured_of_mem_performance _ _ _⟩
  · refine ⟨_, _, ?_, rfl, rfl⟩
    rw [List.forall_mem_singleton]
    exact Event.isAssured_of_level _ _ nofun

/-- With a condition that settles its own an operation does the same, but it tells nothing of its
condition. -/
theorem step_withCondition {operation : Operation} {condition : Option Condition}
    (h : Settles environment scopes operation.condition condition) :
    environment.step scopes (operation.withCondition condition) =
      ⟨Event.assured (environment.step scopes operation).events,
        (environment.step scopes operation).next⟩ := by
  have hverdict := h.verdict_eq
  have hadmits : environment.admits scopes (operation.withCondition condition) =
      environment.admits scopes operation := by
    rw [admits_eq, Operation.withCondition, hverdict]
  have hdoubts : environment.doubts scopes (operation.withCondition condition) = [] :=
    doubts_of_verdict hverdict
  obtain ⟨events, next, hassured, hstep, hstep'⟩ := exists_step_eq hadmits
  rw [hstep', hstep, hdoubts, Event.assured_append, assured_doubts, Event.assured_eq_self hassured]

end step

/-! ## Runs with other conditions -/

/-- The task is done with these events and this result if each operation has the condition, whenever
it is come to, that is given for it in the scopes. -/
inductive ExecutesWith (environment : Environment)
    (conditions : Scopes → Operation → Option Condition) :
    Task → List Event → Except Fault Unit → Prop
  /-- An operation that fails itself. -/
  | failed {scopes operation fault} :
    (environment.step scopes (operation.withCondition (conditions scopes operation))).next =
      .error fault →
    ExecutesWith environment conditions (.run scopes operation)
      (environment.step scopes (operation.withCondition (conditions scopes operation))).events
      (.error fault)
  /-- An operation that leaves the rest to others. -/
  | followed {scopes operation references events result} :
    (environment.step scopes (operation.withCondition (conditions scopes operation))).next =
      .ok references →
    ExecutesWith environment conditions (.follow operation references) events result →
    ExecutesWith environment conditions (.run scopes operation)
      ((environment.step scopes (operation.withCondition (conditions scopes operation))).events ++
        events)
      result
  /-- No reference is left. -/
  | nil {parent} : ExecutesWith environment conditions (.follow parent []) [] (.ok ())
  /-- A reference that leads nowhere is passed over. -/
  | missing {parent scopes reference rest events result} :
    environment.operations.find? reference = none →
    ExecutesWith environment conditions (.follow parent rest) events result →
    ExecutesWith environment conditions (.follow parent ((scopes, reference) :: rest))
      (.missing parent.identifier reference :: events) result
  /-- A reference that leads to an operation that succeeds. -/
  | found {parent scopes reference rest operation first second result} :
    environment.operations.find? reference = some operation →
    ExecutesWith environment conditions (.run scopes operation) first (.ok ()) →
    ExecutesWith environment conditions (.follow parent rest) second result →
    ExecutesWith environment conditions (.follow parent ((scopes, reference) :: rest))
      (first ++ second) result
  /-- A reference that leads to an operation that fails. -/
  | fault {parent scopes reference rest operation events fault} :
    environment.operations.find? reference = some operation →
    ExecutesWith environment conditions (.run scopes operation) events (.error fault) →
    ExecutesWith environment conditions (.follow parent ((scopes, reference) :: rest))
      events (.error fault)

/-- The conditions settle those of all operations that are come to, where they are come to. -/
def SettlesAll (environment : Environment) (conditions : Scopes → Operation → Option Condition)
    (task : Task) : Prop :=
  ∀ scopes operation, ComesTo environment task scopes operation →
    Settles environment scopes operation.condition (conditions scopes operation)

/-- With conditions that settle those of all operations that are come to, the same is done. -/
theorem Executes.settled {environment : Environment}
    {conditions : Scopes → Operation → Option Condition} {task : Task} {trace : Trace}
    {result : Except Fault Unit} (h : Executes environment task trace result)
    (hsettles : SettlesAll environment conditions task) :
    ExecutesWith environment conditions task (Event.assured trace.events) result := by
  induction h with
  | failed hnext =>
    have hstep := step_withCondition (hsettles _ _ .here)
    have hevents := congrArg Step.events hstep
    dsimp only at hevents ⊢
    rw [← hevents]
    refine .failed ?_
    rw [hstep]
    exact hnext
  | followed hnext _ ih =>
    have hstep := step_withCondition (hsettles _ _ .here)
    have hevents := congrArg Step.events hstep
    dsimp only at hevents ⊢
    rw [Event.assured_append, ← hevents]
    refine .followed ?_ (ih fun _ _ hcomes => hsettles _ _ (.followed hnext hcomes))
    rw [hstep]
    exact hnext
  | nil => exact .nil
  | missing hnone _ ih =>
    have hrest := ih fun _ _ hcomes => hsettles _ _ (.missing hnone hcomes)
    rw [Trace.andThen, Event.assured_append, assured_missing]
    exact .missing hnone hrest
  | found hsome hrun _ ihrun ihrest =>
    have hfirst := ihrun fun _ _ hcomes => hsettles _ _ (.first hsome hcomes)
    have hrest := ihrest fun _ _ hcomes => hsettles _ _ (.found hsome hrun hcomes)
    rw [Trace.andThen, Trace.andThen, List.nil_append, Event.assured_append]
    exact .found hsome hfirst hrest
  | fault hsome _ ih =>
    have hrun := ih fun _ _ hcomes => hsettles _ _ (.first hsome hcomes)
    rw [Trace.andThen, List.nil_append]
    exact .fault hsome hrun

/-- What is done is determined by the task and the conditions. -/
theorem ExecutesWith.unique {environment : Environment}
    {conditions : Scopes → Operation → Option Condition} {task : Task}
    {events events' : List Event} {result result' : Except Fault Unit}
    (h : ExecutesWith environment conditions task events result)
    (h' : ExecutesWith environment conditions task events' result') :
    events = events' ∧ result = result' := by
  induction h generalizing events' result' with
  | failed hnext =>
    cases h' with
    | failed hnext' =>
      cases hnext.symm.trans hnext'
      exact ⟨rfl, rfl⟩
    | followed hnext' => cases hnext.symm.trans hnext'
  | followed hnext _ ih =>
    cases h' with
    | failed hnext' => cases hnext.symm.trans hnext'
    | followed hnext' hfollow =>
      cases hnext.symm.trans hnext'
      obtain ⟨rfl, rfl⟩ := ih hfollow
      exact ⟨rfl, rfl⟩
  | nil =>
    cases h'
    exact ⟨rfl, rfl⟩
  | missing hnone _ ih =>
    cases h' with
    | missing _ hrest =>
      obtain ⟨rfl, rfl⟩ := ih hrest
      exact ⟨rfl, rfl⟩
    | found hsome | fault hsome => cases hnone.symm.trans hsome
  | found hsome _ _ ihrun ihrest =>
    cases h' with
    | missing hnone => cases hnone.symm.trans hsome
    | found hsome' hrun hrest =>
      cases hsome.symm.trans hsome'
      obtain ⟨rfl, -⟩ := ihrun hrun
      obtain ⟨rfl, rfl⟩ := ihrest hrest
      exact ⟨rfl, rfl⟩
    | fault hsome' hrun =>
      cases hsome.symm.trans hsome'
      cases (ihrun hrun).2
  | fault hsome _ ih =>
    cases h' with
    | missing hnone => cases hnone.symm.trans hsome
    | found hsome' hrun =>
      cases hsome.symm.trans hsome'
      cases (ih hrun).2
    | fault hsome' hrun =>
      cases hsome.symm.trans hsome'
      obtain ⟨rfl, hfault⟩ := ih hrun
      exact ⟨rfl, hfault⟩

/-! ## Sets with other conditions -/

section withConditions

variable (environment : Environment) (conditions : Operation → Option Condition)

/-- The environment with other conditions in the set. -/
def Environment.withConditions : Environment :=
  { environment with operations := environment.operations.withConditions conditions }

/-- The task with other conditions in its operation. -/
def Task.withConditions : Task → Task
  | .run scopes operation => .run scopes (operation.withCondition (conditions operation))
  | .follow parent references => .follow (parent.withCondition (conditions parent)) references

theorem Environment.find?_withConditions (identifier : String) :
    (environment.withConditions conditions).operations.find? identifier =
      (environment.operations.find? identifier).map fun operation =>
        operation.withCondition (conditions operation) :=
  OperationSet.find?_withConditions ..

theorem defines_withConditions (identifier : String) :
    (environment.withConditions conditions).defines identifier =
      environment.defines identifier := by
  rw [Environment.defines, Environment.find?_withConditions, Option.isSome_map]
  rfl

theorem upToMissing_withConditions (references : List String) :
    (environment.withConditions conditions).upToMissing references =
      environment.upToMissing references := by
  induction references with
  | nil => rfl
  | cons reference rest ih =>
    rw [Environment.upToMissing, Environment.upToMissing, defines_withConditions, ih]

/-- What conditions the others have does not matter to the step of an operation. -/
theorem step_withConditions (scopes : Scopes) (operation : Operation) :
    (environment.withConditions conditions).step scopes operation =
      environment.step scopes operation := by
  have hperformance :
      (environment.withConditions conditions).performance scopes operation.identifier
          operation.kind =
        environment.performance scopes operation.identifier operation.kind := by
    cases operation.kind with
    | group operations =>
      rw [Environment.performance, Environment.performance, upToMissing_withConditions]
    | selection | sequence | template => rfl
  unfold Environment.step
  rw [hperformance]
  rfl

variable {environment conditions}

/-- The run in the set with other conditions is the run with these conditions. -/
theorem ExecutesWith.exists_executes {task : Task} {events : List Event}
    {result : Except Fault Unit}
    (h : ExecutesWith environment (fun _ operation => conditions operation) task events result) :
    ∃ trace, Executes (environment.withConditions conditions) (task.withConditions conditions)
      trace result ∧ trace.events = events := by
  have hsome : ∀ {identifier operation}, environment.operations.find? identifier = some operation →
      (environment.withConditions conditions).operations.find? identifier =
        some (operation.withCondition (conditions operation)) := by
    intro identifier operation hfind
    rw [Environment.find?_withConditions, hfind, Option.map_some]
  induction h with
  | failed hnext =>
    rw [← step_withConditions environment conditions] at hnext ⊢
    exact ⟨_, .failed hnext, rfl⟩
  | followed hnext _ ih =>
    obtain ⟨trace, hexec, rfl⟩ := ih
    rw [← step_withConditions environment conditions] at hnext ⊢
    exact ⟨_, .followed hnext hexec, rfl⟩
  | nil => exact ⟨_, .nil, rfl⟩
  | @missing parent scopes reference rest _ _ hfind _ ih =>
    obtain ⟨trace, hexec, rfl⟩ := ih
    have hnone : (environment.withConditions conditions).operations.find? reference = none := by
      rw [Environment.find?_withConditions, hfind, Option.map_none]
    exact ⟨_, .missing hnone hexec, rfl⟩
  | found hfind _ _ ihrun ihrest =>
    obtain ⟨first, hrun, rfl⟩ := ihrun
    obtain ⟨second, hrest, rfl⟩ := ihrest
    exact ⟨_, .found (hsome hfind) hrun hrest, rfl⟩
  | fault hfind _ ih =>
    obtain ⟨trace, hexec, rfl⟩ := ih
    exact ⟨_, .fault (hsome hfind) hexec, rfl⟩

end withConditions

/-! ## States after runs with other conditions -/

/-- The records that are told, in order. -/
def Event.records : List Event → List Log.Record
  | [] => []
  | .told record :: events => record :: records events
  | .wrote _ :: events => records events

theorem Event.records_assured (events : List Event) :
    records (assured events) = (records events).filter (¬ IsDoubt ·) := by
  induction events with
  | nil => rfl
  | cons event events ih =>
    cases event with
    | told record =>
      cases hassured : isAssured (.told record) with
      | true =>
        have hnot : ¬ IsDoubt record := of_decide_eq_true hassured
        rw [assured_cons_of_isAssured hassured, records, ih, records,
          List.filter_cons_of_pos (by simpa using hnot)]
      | false =>
        have hdoubt : ¬ ¬ IsDoubt record := of_decide_eq_false hassured
        rw [assured_cons_of_not hassured, ih, records,
          List.filter_cons_of_neg (by simpa using hdoubt)]
    | wrote text => exact ih

/-- Events do not look at the log. -/
theorem State.afterAll_log (target : Path) (state : State) (log : Log) (events : List Event) :
    { state with log }.afterAll target events =
      { state.afterAll target events with log := log ++ (Event.records events).toArray } := by
  induction events generalizing state log with
  | nil => simp [Event.records]
  | cons event events ih =>
    cases event with
    | told record =>
      have hstart : (State.after target { state with log } (.told record)) =
          { state with log := log.push record } := rfl
      have hown : state.after target (.told record) =
          { state with log := state.log.push record } := rfl
      rw [afterAll_cons, afterAll_cons, hstart, hown, ih state (log.push record),
        ih state (state.log.push record), Event.records]
      simp
    | wrote text =>
      have hstart : (State.after target { state with log } (.wrote text)) =
          { state.after target (.wrote text) with log } := rfl
      rw [afterAll_cons, afterAll_cons, hstart, ih]
      rfl

/-- What comes after the start is the same, but for records that tell that a condition has no value:
those are told in the first alone. -/
def SameButDoubts (start after after' : State) : Prop :=
  ∃ records : List Log.Record, after.log = start.log ++ records.toArray ∧
    after' = { after with log := start.log ++ (records.filter (¬ IsDoubt ·)).toArray }

section states

variable {target : Path}

theorem State.afterAll_assured (state : State) (events : List Event) :
    state.afterAll target (Event.assured events) =
      { state.afterAll target events with
        log := state.log ++ (Event.records (Event.assured events)).toArray } := by
  induction events generalizing state with
  | nil => simp [Event.assured, Event.records]
  | cons event events ih =>
    cases hassured : event.isAssured with
    | true =>
      rw [Event.assured_cons_of_isAssured hassured, afterAll_cons, afterAll_cons, ih]
      cases event with
      | told record => simp [after, Event.records]
      | wrote text => rfl
    | false =>
      cases event with
      | told record =>
        have hlog := state.afterAll_log target (state.log.push record) events
        have hafter : state.after target (.told record) =
            { state with log := state.log.push record } := rfl
        rw [Event.assured_cons_of_not hassured, ih, afterAll_cons, hafter, hlog]
      | wrote text => cases hassured

theorem sameButDoubts_assured (state : State) (events : List Event) :
    SameButDoubts state (state.afterAll target events)
      (state.afterAll target (Event.assured events)) := by
  refine ⟨Event.records events, ?_, ?_⟩
  · exact congrArg State.log (state.afterAll_log target state.log events)
  · rw [State.afterAll_assured, Event.records_assured]

end states

/-! ## Runs of a main operation -/

section main

variable {environment : Environment} {target : Path} {main : String} {operation : Operation}
  (hfind : environment.operations.find? main = some operation) (state : State)

include hfind

theorem runMain_eq_error_iff {fault : Fault} :
    ((runMain environment target main).run.run state).1 = .error fault ↔
      ∃ scopes operation', ComesTo environment (.run state.scopes operation) scopes operation' ∧
        environment.admits scopes operation' = true ∧
        Fails environment scopes operation'.kind fault := by
  obtain ⟨trace, result, hexec, hrun⟩ := executes_of_runMain target hfind state
  rw [hrun, ← exists_executes_error_iff]
  constructor
  · rintro rfl
    exact ⟨trace, hexec⟩
  · rintro ⟨trace', hexec'⟩
    exact (hexec.unique hexec').2

/-- With the conditions there is one way to do what the run does, and it leaves the same behind. -/
theorem runMain_settled {conditions : Scopes → Operation → Option Condition}
    (hsettles : SettlesAll environment conditions (.run state.scopes operation)) :
    ∃ events,
      SameButDoubts state ((runMain environment target main).run.run state).2
        ({ state with mode := .replace }.afterAll target events) ∧
      ∀ events' result,
        ExecutesWith environment conditions (.run state.scopes operation) events' result ↔
          events' = events ∧ result = ((runMain environment target main).run.run state).1 := by
  obtain ⟨trace, result, hexec, hrun⟩ := executes_of_runMain target hfind state
  have hwith := hexec.settled hsettles
  rw [hrun]
  refine ⟨Event.assured trace.events, sameButDoubts_assured _ _, fun events' result' => ?_⟩
  constructor
  · exact fun hwith' => hwith'.unique hwith
  · rintro ⟨rfl, rfl⟩
    exact hwith

theorem runMain_withConditions {conditions : Operation → Option Condition}
    (hsettles : SettlesAll environment (fun _ => conditions) (.run state.scopes operation)) :
    ((runMain (environment.withConditions conditions) target main).run.run state).1 =
        ((runMain environment target main).run.run state).1 ∧
      SameButDoubts state ((runMain environment target main).run.run state).2
        ((runMain (environment.withConditions conditions) target main).run.run state).2 := by
  have hfind' : (environment.withConditions conditions).operations.find? main =
      some (operation.withCondition (conditions operation)) := by
    rw [Environment.find?_withConditions, hfind, Option.map_some]
  obtain ⟨trace, result, hexec, hrun⟩ := executes_of_runMain target hfind state
  obtain ⟨trace', result', hexec', hrun'⟩ := executes_of_runMain target hfind' state
  obtain ⟨trace'', hexec'', hevents⟩ := (hexec.settled hsettles).exists_executes
  obtain ⟨rfl, rfl⟩ := hexec'.unique hexec''
  rw [hrun, hrun', hevents]
  exact ⟨rfl, sameButDoubts_assured _ _⟩

end main

/-- A run fails for want of an operation exactly if its main operation is not there. Otherwise it
fails exactly if it comes to a template whose condition holds and that fails itself, for want of its
file or for what is in it, and with this fault. So no condition and no reference to what is not
there makes a run fail: wherever a condition has no value, the run is the same with one that does
not hold there, be it another one at each place that is come to or one for the whole run, but for
what the log tells of the condition. -/
theorem runMain_fails_in_templates (environment : Environment) (target : Path) (main : String)
    (state : State) :
    let performed := fun environment => (runMain environment target main).run.run state
    ((∃ identifier, (performed environment).1 = .error (.undefinedOperation identifier)) ↔
      main ∉ environment.operations.identifiers) ∧
    ∀ operation, environment.operations.find? main = some operation →
      let task := Task.run state.scopes operation
      (∀ fault, (performed environment).1 = .error fault ↔
        ∃ scopes operation', ComesTo environment task scopes operation' ∧
          environment.admits scopes operation' = true ∧
          Fails environment scopes operation'.kind fault) ∧
      SettlesAll environment environment.orFalse task ∧
      (∀ conditions : Scopes → Operation → Option Condition,
        SettlesAll environment conditions task →
          ∃ events,
            SameButDoubts state (performed environment).2
              ({ state with mode := .replace }.afterAll target events) ∧
            ∀ events' result, ExecutesWith environment conditions task events' result ↔
              events' = events ∧ result = (performed environment).1) ∧
      ∀ conditions : Operation → Option Condition,
        SettlesAll environment (fun _ => conditions) task →
          (performed (environment.withConditions conditions)).1 = (performed environment).1 ∧
            SameButDoubts state (performed environment).2
              (performed (environment.withConditions conditions)).2 := by
  intro performed
  refine ⟨?_, fun operation hfind => ⟨fun fault => runMain_eq_error_iff hfind state,
    fun scopes operation' _ => settles_orFalse environment scopes operation',
    fun conditions hsettles => runMain_settled hfind state hsettles,
    fun conditions hsettles => runMain_withConditions hfind state hsettles⟩⟩
  rw [← OperationSet.find?_eq_none_iff]
  cases hfind : environment.operations.find? main with
  | none =>
    refine iff_of_true ⟨main, ?_⟩ rfl
    dsimp only [performed]
    rw [runMain_of_none hfind]
    rfl
  | some operation =>
    refine iff_of_false ?_ nofun
    rintro ⟨identifier, herror⟩
    obtain ⟨_, _, -, -, hfails⟩ := (runMain_eq_error_iff hfind state).1 herror
    exact not_fails_undefinedOperation hfails

/-- A group of an operation whose condition names what is not there, and of one that is not there
itself. -/
theorem runMain_fails_in_templates_unknown :
    let part : Operation :=
      ⟨"part", some ⟨"unknown", .name ["unknown"]⟩, .template "part.txt" [] none []⟩
    let main : Operation := ⟨"main", none, .group ["part", "absent"]⟩
    let environment : Environment :=
      ⟨⟨[main, part], by decide, ["main", "part"], by decide⟩, .empty,
        ⟨⟨"templates"⟩, fun _ => none⟩⟩
    let state : State := ⟨.empty, .replace, .empty, #[]⟩
    let conditions : Operation → Option Condition := fun operation =>
      operation.condition.map fun _ => ⟨"False", .literal (.bool false)⟩
    environment.operations.find? "main" = some main ∧
      SettlesAll environment (fun _ => conditions) (.run state.scopes main) ∧
      ((runMain (environment.withConditions conditions) ⟨"out"⟩ "main").run.run state).1 =
        ((runMain environment ⟨"out"⟩ "main").run.run state).1 := by
  intro part main environment state conditions
  have hfind : environment.operations.find? "main" = some main := rfl
  have hsettles : SettlesAll environment (fun _ => conditions) (.run state.scopes main) := by
    intro scopes operation hcomes
    cases hcomes with
    | here => exact ⟨fun _ h => h, nofun⟩
    | followed hnext hcomes =>
      cases hnext
      cases hcomes with
      | first hsome hcomes =>
        cases hsome
        cases hcomes with
        | here => exact ⟨nofun, fun _ _ => rfl⟩
        | followed hnext hcomes =>
          cases hnext
          cases hcomes
      | missing hnone => cases hnone
      | found _ _ hcomes =>
        cases hcomes with
        | first hsome => cases hsome
        | missing _ hcomes => cases hcomes
        | found hsome => cases hsome
  exact ⟨hfind, hsettles, ((runMain_fails_in_templates environment ⟨"out"⟩ "main" state).2 main
    hfind).2.2.2 conditions hsettles |>.1⟩

end Execution

end Stencil
