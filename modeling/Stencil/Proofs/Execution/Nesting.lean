import Stencil.Proofs.Execution.Trace
import Stencil.Proofs.OperationSet

/-!
# Runs come to an end

The rules of execution do not say that a run ends, nor which references it follows. Operations that
make a set have ranks that go down along references, an operation follows only references that it
has, and so runs lie within each other at most as deeply as there are operations
(`run_ends_within`). What carries the proof is that a run within a run counts one operation less:
`OperationSet.below` counts those that are left.
-/

namespace Stencil

namespace OperationSet

/-- How many operations have a rank below the bound. -/
def below (set : OperationSet) (bound : Nat) : Nat :=
  (set.operations.filter fun operation => set.rank operation.identifier < bound).length

theorem below_le_length (set : OperationSet) (bound : Nat) :
    set.below bound ≤ set.operations.length :=
  List.length_filter_le ..

theorem below_mono (set : OperationSet) {bound bound' : Nat} (h : bound ≤ bound') :
    set.below bound ≤ set.below bound' := by
  unfold below
  rw [← List.countP_eq_length_filter, ← List.countP_eq_length_filter]
  refine List.countP_mono_left fun operation _ hlt => ?_
  rw [decide_eq_true_eq] at hlt ⊢
  exact Nat.lt_of_lt_of_le hlt h

/-- An operation is itself left below the next bound. -/
theorem below_rank_lt {set : OperationSet} {operation : Operation}
    (hmem : operation ∈ set.operations) :
    set.below (set.rank operation.identifier) <
      set.below (set.rank operation.identifier + 1) := by
  let next := set.operations.filter fun other =>
    set.rank other.identifier < set.rank operation.identifier + 1
  have hfilter : (set.operations.filter fun other =>
      set.rank other.identifier < set.rank operation.identifier) =
        next.filter fun other => set.rank other.identifier < set.rank operation.identifier := by
    rw [List.filter_filter]
    refine List.filter_congr fun other _ => ?_
    simp only [← Bool.decide_and, decide_eq_decide]
    omega
  have hnext : operation ∈ next := List.mem_filter.2 ⟨hmem, by simp⟩
  unfold below
  rw [hfilter]
  exact List.length_filter_lt_length_iff_exists.2 ⟨operation, hnext, by simp⟩

end OperationSet

namespace Execution

variable {environment : Environment} {scopes : Scopes} {operation : Operation}

theorem mem_of_mem_upToMissing {references : List String} {reference : String}
    (h : reference ∈ environment.upToMissing references) : reference ∈ references := by
  induction references with
  | nil => exact h
  | cons first rest ih =>
    unfold Environment.upToMissing at h
    rcases List.mem_cons.1 h with rfl | hrest
    · exact List.mem_cons_self
    · split at hrest
      · exact List.mem_cons_of_mem _ (ih hrest)
      · cases hrest

theorem mem_references_of_performance {identifier : String} {kind : Operation.Kind}
    {references : List (Scopes × String)}
    (h : (environment.performance scopes identifier kind).next = .ok references) :
    ∀ reference ∈ references, reference.2 ∈ kind.references := by
  cases kind with
  | group operations =>
    cases h
    intro reference hmem
    obtain ⟨name, hname, rfl⟩ := List.mem_map.1 hmem
    exact mem_of_mem_upToMissing hname
  | selection input options default =>
    dsimp only [Environment.performance] at h
    split at h
    · next reference hselected =>
      cases h
      intro other hmem
      rw [List.mem_singleton.1 hmem]
      exact mem_of_selected? hselected
    · cases h
      exact List.forall_mem_nil _
  | sequence input operations placeholder fallback =>
    dsimp only [Environment.performance] at h
    split at h
    · cases h
      exact List.forall_mem_nil _
    · cases h
      intro reference hmem
      obtain ⟨name, hname, rfl⟩ := List.mem_map.1 hmem
      exact List.mem_append_right _ hname
    · cases h
      intro reference hmem
      obtain ⟨element, -, hitem⟩ := List.mem_flatMap.1 hmem
      obtain ⟨name, hname, rfl⟩ := List.mem_map.1 hitem
      exact List.mem_append_left _ hname
  | template file placeholders fallback modifiers =>
    dsimp only [Environment.performance] at h
    split at h
    · split at h
      · cases h
        intro other hmem
        rw [List.mem_singleton.1 hmem]
        exact List.mem_singleton_self _
      · cases h
    · next content hread =>
      cases hresult : (outcomeOfTemplate scopes (environment.templatePath file) content
          placeholders modifiers).result with
      | error fault =>
        rw [hresult] at h
        cases h
      | ok =>
        rw [hresult] at h
        cases h
        exact List.forall_mem_nil _

/-- What an operation runs, it refers to. -/
theorem mem_references_of_step {references : List (Scopes × String)}
    (h : (environment.step scopes operation).next = .ok references) :
    ∀ reference ∈ references, reference.2 ∈ operation.references := by
  unfold Environment.step at h
  split at h
  · exact mem_references_of_performance h
  · cases h
    exact List.forall_mem_nil _

namespace Task

/-- An operation of the set is to be run, or references that one of them has are to be followed. -/
def Proper (environment : Environment) : Task → Prop
  | .run _ operation => operation ∈ environment.operations.operations
  | .follow parent references =>
    parent ∈ environment.operations.operations ∧
      ∀ reference ∈ references, reference.2 ∈ parent.references

/-- How many operations may be run by a task, the one that has the references not among them. -/
def limit (environment : Environment) : Task → Nat
  | .run _ operation =>
    environment.operations.below (environment.operations.rank operation.identifier + 1)
  | .follow parent _ =>
    environment.operations.below (environment.operations.rank parent.identifier)

end Task

/-- Only references are followed that operations have, and runs lie within each other no more deeply
than the bound says. -/
structure Trace.Bounded (environment : Environment) (trace : Trace) (bound : Nat) : Prop where
  calls : ∀ call ∈ trace.calls,
    call.1 ∈ environment.operations.operations ∧ call.2 ∈ call.1.references
  depth : trace.depth ≤ bound

namespace Trace.Bounded

variable {trace trace' : Trace} {bound bound' : Nat}

theorem mono (h : trace.Bounded environment bound) (hle : bound ≤ bound') :
    trace.Bounded environment bound' :=
  ⟨h.calls, h.depth.trans hle⟩

theorem andThen (h : trace.Bounded environment bound) (h' : trace'.Bounded environment bound) :
    (trace.andThen trace').Bounded environment bound := by
  refine ⟨fun call hcall => ?_, Nat.max_le.2 ⟨h.depth, h'.depth⟩⟩
  rcases List.mem_append.1 hcall with hfirst | hsecond
  · exact h.calls call hfirst
  · exact h'.calls call hsecond

theorem call {events : List Event} {parent : Operation} {reference : String}
    (hparent : parent ∈ environment.operations.operations)
    (hreference : reference ∈ parent.references) :
    Trace.Bounded environment ⟨events, [(parent, reference)], 0⟩ bound := by
  refine ⟨fun call hcall => ?_, Nat.zero_le _⟩
  rw [List.mem_singleton.1 hcall]
  exact ⟨hparent, hreference⟩

end Trace.Bounded

/-- What a reference leads to may run fewer operations than what has the reference. -/
theorem limit_run_le {parent : Operation} {reference : String}
    (hparent : parent ∈ environment.operations.operations)
    (hreference : reference ∈ parent.references)
    (hfind : environment.operations.find? reference = some operation) :
    (Task.run scopes operation).limit environment ≤
      environment.operations.below (environment.operations.rank parent.identifier) :=
  OperationSet.below_mono _ (OperationSet.rank_lt_rank hparent hfind hreference)

theorem Executes.bounded {task : Task} {trace : Trace} {result : Except Fault Unit}
    (h : Executes environment task trace result) (hproper : task.Proper environment) :
    trace.Bounded environment (task.limit environment) := by
  induction h with
  | failed _ =>
    have hlt := OperationSet.below_rank_lt hproper
    exact ⟨List.forall_mem_nil _, Nat.lt_of_le_of_lt (Nat.zero_le _) hlt⟩
  | followed hnext _ ih =>
    have hbounded := ih ⟨hproper, mem_references_of_step hnext⟩
    have hlt := OperationSet.below_rank_lt hproper
    exact ⟨hbounded.calls, Nat.lt_of_le_of_lt hbounded.depth hlt⟩
  | nil => exact ⟨List.forall_mem_nil _, Nat.zero_le _⟩
  | missing _ _ ih =>
    obtain ⟨hparent, hreferences⟩ := hproper
    obtain ⟨hfirst, hrest⟩ := List.forall_mem_cons.1 hreferences
    exact (Trace.Bounded.call hparent hfirst).andThen (ih ⟨hparent, hrest⟩)
  | found hfind _ _ ihrun ihrest =>
    obtain ⟨hparent, hreferences⟩ := hproper
    obtain ⟨hfirst, hrest⟩ := List.forall_mem_cons.1 hreferences
    have hrun := (ihrun (OperationSet.mem_of_find? hfind).1).mono
      (limit_run_le hparent hfirst hfind)
    exact (Trace.Bounded.call hparent hfirst).andThen (hrun.andThen (ihrest ⟨hparent, hrest⟩))
  | fault hfind _ ih =>
    obtain ⟨hparent, hreferences⟩ := hproper
    obtain ⟨hfirst, hrest⟩ := List.forall_mem_cons.1 hreferences
    have hrun := (ih (OperationSet.mem_of_find? hfind).1).mono (limit_run_le hparent hfirst hfind)
    exact (Trace.Bounded.call hparent hfirst).andThen hrun

theorem ExecutesMain.bounded {main : String} {trace : Trace} {result : Except Fault Unit}
    (h : ExecutesMain environment scopes main trace result) :
    trace.Bounded environment environment.operations.operations.length := by
  cases h with
  | undefined => exact ⟨List.forall_mem_nil _, Nat.zero_le _⟩
  | run hfind hexec =>
    exact (hexec.bounded (OperationSet.mem_of_find? hfind).1).mono
      (OperationSet.below_le_length ..)

/-- Let operations be accepted as a set. Then there is a rank that goes down along each reference to
one of them. Each run of a main operation comes to an end: the rules of execution, which do not ask
for this, give it a trace, and the run has the result and the events of the trace. On the way an
operation follows only references that it has, and at no time are more operations running than there
are in the set. -/
theorem run_ends_within (operations : List Operation) (environment : Environment)
    (h : OperationSet.ofList operations = .ok environment.operations) :
    (∃ rank : String → Nat, ∀ operation ∈ operations, ∀ reference ∈ operation.references,
      reference ∈ operations.map Operation.identifier →
        rank reference < rank operation.identifier) ∧
    ∀ target main state, ∃ trace result mode,
      ExecutesMain environment state.scopes main trace result ∧
      (runMain environment target main).run.run state =
        (result, { { state with mode := .replace }.afterAll target trace.events with mode }) ∧
      (∀ call ∈ trace.calls, call.1 ∈ operations ∧ call.2 ∈ call.1.references) ∧
      trace.depth ≤ operations.length := by
  have hoperations := OperationSet.operations_of_ofList h
  constructor
  · refine ⟨environment.operations.rank, fun operation hmem reference href hin => ?_⟩
    obtain ⟨other, hother, rfl⟩ := List.mem_map.1 hin
    rw [← hoperations] at hmem hother
    have hfind : environment.operations.find? other.identifier = some other :=
      OperationSet.find?_of_mem environment.operations.distinct hother
    exact OperationSet.rank_lt_rank hmem hfind href
  · intro target main state
    obtain ⟨trace, result, mode, hexec, hrun⟩ :=
      executesMain_of_runMain environment target main state
    have hbounded := hexec.bounded
    rw [hoperations] at hbounded
    refine ⟨trace, result, mode, hexec, hrun, fun call hcall => ?_, hbounded.depth⟩
    rw [← hoperations]
    exact hbounded.calls call hcall

/-- A sequence that runs a template and refers to an operation that is not there. -/
theorem run_ends_within_sequence :
    let part : Operation := ⟨"part", none, .template "part.txt" [] none []⟩
    let main : Operation := ⟨"main", none, .sequence "items" ["part", "missing"] "item" none⟩
    let environment : Environment :=
      ⟨⟨[main, part], by decide, ["main", "part"], by decide⟩, .empty,
        ⟨⟨"templates"⟩, fun _ => some (.ok "[$item]")⟩⟩
    let state : State :=
      ⟨.ofScope (.ofList [("items", .array [.string "x", .string "y"])]), .replace, .empty, #[]⟩
    OperationSet.ofList [main, part] = .ok environment.operations ∧
      ∃ trace result, ExecutesMain environment state.scopes "main" trace result ∧
        ((runMain environment ⟨"out"⟩ "main").run.run state).1 = result ∧
        (∀ call ∈ trace.calls, call.1 ∈ [main, part] ∧ call.2 ∈ call.1.references) ∧
        trace.depth ≤ 2 := by
  intro part main environment state
  have haccepted : OperationSet.ofList [main, part] = .ok environment.operations := rfl
  obtain ⟨-, hruns⟩ := run_ends_within [main, part] environment haccepted
  obtain ⟨trace, result, mode, hexec, hrun, hcalls, hdepth⟩ := hruns ⟨"out"⟩ "main" state
  exact ⟨haccepted, trace, result, hexec, by rw [hrun], hcalls, hdepth⟩

end Execution

end Stencil
