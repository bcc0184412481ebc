import Stencil.OperationSet
import Stencil.Proofs.Graph

/-!
# Which operations make a set

Operations make a set exactly if their identifiers are distinct and their references have no cycle.
Where only the references are at fault, the fault names the identifiers that lie on a cycle or
behind one, in the order of the operations. The main statement is `ofList_ok_iff_distinct_acyclic`;
the graph theory is in `Stencil.Proofs.Graph`.
-/

namespace Stencil.OperationSet

open Relation

/-- The operation `a` refers to the operation `b`, both given by their identifiers. References to
what is no identifier of `operations` do not count. -/
def Refers (operations : List Operation) (a b : String) : Prop :=
  (∃ operation ∈ operations, operation.identifier = a ∧ b ∈ operation.references) ∧
    b ∈ operations.map Operation.identifier

section graph

variable {operations : List Operation}
  (hnodup : (operations.map Operation.identifier).Nodup)

include hnodup in
theorem references_graph {operation : Operation} (hmem : operation ∈ operations) :
    (graph operations).references operation.identifier = operation.references := by
  simp only [graph, find?_of_mem hnodup hmem]

include hnodup in
/-- The references between operations with distinct identifiers are the edges of their graph. -/
theorem edge_graph : (graph operations).Edge = Refers operations := by
  funext a b
  apply propext
  constructor
  · rintro ⟨ha, hb, href⟩
    obtain ⟨operation, hmem, rfl⟩ := List.mem_map.1 ha
    rw [references_graph hnodup hmem] at href
    exact ⟨⟨operation, hmem, rfl, href⟩, hb⟩
  · rintro ⟨⟨operation, hmem, rfl, href⟩, hb⟩
    refine ⟨List.mem_map_of_mem hmem, hb, ?_⟩
    rw [references_graph hnodup hmem]
    exact href

theorem Refers.mem_of_reflTransGen {a b : String}
    (ha : a ∈ operations.map Operation.identifier) (h : ReflTransGen (Refers operations) a b) :
    b ∈ operations.map Operation.identifier := by
  cases h with
  | refl => exact ha
  | tail _ hstep => exact hstep.2

theorem Refers.mem_of_cycle {a : String} (h : TransGen (Refers operations) a a) :
    a ∈ operations.map Operation.identifier := by
  cases h with
  | single hstep => exact hstep.2
  | tail _ hstep => exact hstep.2

include hnodup in
/-- What cannot be ordered lies on a cycle of references or behind one. -/
theorem mem_unordered_graph_iff {identifier : String} :
    identifier ∈ (graph operations).unordered ↔
      Graph.OnOrBehindCycle (Refers operations) identifier := by
  rw [Graph.mem_unordered_iff (g := graph operations) hnodup, edge_graph hnodup]
  constructor
  · exact fun h => h.2
  · intro h
    obtain ⟨a, hcycle, hpath⟩ := h
    exact ⟨Refers.mem_of_reflTransGen (Refers.mem_of_cycle hcycle) hpath, a, hcycle, hpath⟩

include hnodup in
theorem unordered_graph_eq_nil_iff :
    (graph operations).unordered = [] ↔
      ∀ identifier, ¬ TransGen (Refers operations) identifier identifier := by
  rw [List.eq_nil_iff_forall_not_mem]
  constructor
  · intro h identifier hcycle
    exact h identifier ((mem_unordered_graph_iff hnodup).2 (.of_cycle hcycle))
  · intro h identifier hmem
    obtain ⟨a, hcycle, -⟩ := (mem_unordered_graph_iff hnodup).1 hmem
    exact h a hcycle

end graph

/-! ## Repeated identifiers -/

theorem firstRepeated?_eq_none {seen xs : List String} (hnodup : xs.Nodup)
    (hseen : ∀ x ∈ xs, x ∉ seen) : firstRepeated? seen xs = none := by
  induction xs generalizing seen with
  | nil => rfl
  | cons x xs ih =>
    rw [List.nodup_cons] at hnodup
    have hx : x ∉ seen := hseen x List.mem_cons_self
    unfold firstRepeated?
    rw [if_neg (by simpa using hx)]
    refine ih hnodup.2 fun y hy => ?_
    rw [List.mem_append, List.mem_singleton]
    rintro (hmem | rfl)
    · exact hseen y (List.mem_cons_of_mem _ hy) hmem
    · exact hnodup.1 hy

theorem ofList_of_nodup {operations : List Operation}
    (hnodup : (operations.map Operation.identifier).Nodup) :
    (∃ set, ofList operations = .ok set ∧ set.operations = operations ∧
        (graph operations).unordered = []) ∨
      (ofList operations = .error (.cycle (graph operations).unordered) ∧
        (graph operations).unordered ≠ []) := by
  have hnone : firstRepeated? [] (operations.map Operation.identifier) = none :=
    firstRepeated?_eq_none hnodup fun x _ => List.not_mem_nil
  unfold ofList
  split
  · next hsome => simp [hnone] at hsome
  · split
    · next hnil => exact .inl ⟨_, rfl, rfl, hnil⟩
    · next hne => exact .inr ⟨rfl, hne⟩

theorem nodup_of_ofList {operations : List Operation} {set : OperationSet}
    (h : ofList operations = .ok set) : (operations.map Operation.identifier).Nodup := by
  unfold ofList at h
  split at h
  · cases h
  · next hnone => exact (nodup_of_firstRepeated? hnone).1

theorem operations_of_ofList {operations : List Operation} {set : OperationSet}
    (h : ofList operations = .ok set) : set.operations = operations := by
  rcases ofList_of_nodup (nodup_of_ofList h) with ⟨set', hok, hops, -⟩ | ⟨herror, -⟩
  · rw [h] at hok
    cases hok
    exact hops
  · rw [h] at herror
    cases herror

/-- Operations are accepted exactly if their identifiers are distinct and no reference leads back
to where it starts, and the set lists them as they come. Where only the references are at fault, the
fault names the identifiers that lie on a cycle or behind one, as they come. To decide this, each
identifier is ordered once and each reference is counted off a count that is not zero. -/
theorem ofList_ok_iff_distinct_acyclic (operations : List Operation) :
    ((∃ set, ofList operations = .ok set) ↔
      (operations.map Operation.identifier).Nodup ∧
        ∀ identifier, ¬ TransGen (Refers operations) identifier identifier) ∧
    (∀ set, ofList operations = .ok set →
      set.operations = operations ∧
        set.identifiers = operations.map Operation.identifier) ∧
    ((operations.map Operation.identifier).Nodup →
      (∃ identifier, TransGen (Refers operations) identifier identifier) →
        ∃ named, ofList operations = .error (.cycle named) ∧
          named.Sublist (operations.map Operation.identifier) ∧
          ∀ identifier, identifier ∈ named ↔
            ∃ cyclic, TransGen (Refers operations) cyclic cyclic ∧
              ReflTransGen (Refers operations) cyclic identifier) ∧
    ((operations.map Operation.identifier).Nodup → (graph operations).OrdersOnce) := by
  refine ⟨⟨?_, ?_⟩, ?_, ?_, ?_⟩
  · rintro ⟨set, hok⟩
    have hnodup := nodup_of_ofList hok
    refine ⟨hnodup, (unordered_graph_eq_nil_iff hnodup).1 ?_⟩
    rcases ofList_of_nodup hnodup with ⟨_, _, _, hnil⟩ | ⟨herror, -⟩
    · exact hnil
    · rw [hok] at herror
      cases herror
  · rintro ⟨hnodup, hacyclic⟩
    rcases ofList_of_nodup hnodup with ⟨set, hok, _, _⟩ | ⟨_, hne⟩
    · exact ⟨set, hok⟩
    · exact absurd ((unordered_graph_eq_nil_iff hnodup).2 hacyclic) hne
  · intro set hok
    have hops := operations_of_ofList hok
    exact ⟨hops, by rw [identifiers, hops]⟩
  · intro hnodup hcyclic
    rcases ofList_of_nodup hnodup with ⟨_, _, _, hnil⟩ | ⟨herror, -⟩
    · obtain ⟨identifier, hcycle⟩ := hcyclic
      exact absurd hcycle ((unordered_graph_eq_nil_iff hnodup).1 hnil identifier)
    · exact ⟨_, herror, List.filter_sublist, fun _ => mem_unordered_graph_iff hnodup⟩
  · intro hnodup
    exact Graph.ordersOnce (g := graph operations) hnodup

end Stencil.OperationSet
