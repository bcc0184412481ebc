import Stencil.Graph
import Stencil.Operation

/-!
# Sets of operations

Operations that refer to each other, each identifier used once, none of them running itself through
others. References to identifiers that no operation has are allowed.

Main statement: each operation has a rank, which is greater than the ranks of the operations that it
refers to (`rank_lt_rank`), so that running one comes to an end.
-/

namespace Stencil

/-- Operations that refer to each other without a cycle. -/
structure OperationSet where
  /-- The operations. -/
  operations : List Operation
  /-- Each identifier is used once. -/
  distinct : (operations.map Operation.identifier).Nodup
  /-- The identifiers in an order. -/
  order : List String
  /-- An operation comes before those it refers to. -/
  ordered : ∀ operation ∈ operations, ∀ other ∈ operations,
    other.identifier ∈ operation.references →
      order.idxOf operation.identifier < order.idxOf other.identifier

namespace OperationSet

/-- No operations. -/
def empty : OperationSet := ⟨[], List.nodup_nil, [], by simp⟩

/-- The operation of an identifier. -/
def find? (set : OperationSet) (identifier : String) : Option Operation :=
  set.operations.find? fun operation => operation.identifier = identifier

/-- The identifiers, in the order of the operations. -/
def identifiers (set : OperationSet) : List String :=
  set.operations.map Operation.identifier

/-- How far operations may be run below the one with the identifier. -/
def rank (set : OperationSet) (identifier : String) : Nat :=
  set.order.length - set.order.idxOf identifier

/-- Why operations make no set. -/
inductive Fault where
  /-- Two operations have the identifier. -/
  | duplicate (identifier : String)
  /-- The operations lie on a cycle of references or behind one. -/
  | cycle (identifiers : List String)
  deriving DecidableEq, Repr

/-- Why operations make no set, in words. -/
def Fault.message : Fault → String
  | .duplicate identifier => "duplicate identifier: " ++ identifier
  | .cycle identifiers =>
    "cycle detected involving operations: " ++ ", ".intercalate identifiers

/-- The first element that is also before it. -/
def firstRepeated? (seen : List String) : List String → Option String
  | [] => none
  | x :: xs => if seen.contains x then some x else firstRepeated? (seen ++ [x]) xs

theorem nodup_of_firstRepeated? {seen xs : List String} (h : firstRepeated? seen xs = none) :
    xs.Nodup ∧ ∀ x ∈ xs, x ∉ seen := by
  induction xs generalizing seen with
  | nil => simp
  | cons x xs ih =>
    unfold firstRepeated? at h
    split at h
    · simp at h
    · next hx =>
      obtain ⟨hnodup, hseen⟩ := ih h
      have hx' : x ∉ xs := fun hmem => hseen x hmem (by simp)
      refine ⟨List.nodup_cons.2 ⟨hx', hnodup⟩, fun y hy => ?_⟩
      rcases List.mem_cons.1 hy with rfl | hy
      · simpa using hx
      · intro hmem
        exact hseen y hy (by simp [hmem])

/-- The graph of the references between operations. -/
def graph (operations : List Operation) : Graph where
  nodes := operations.map Operation.identifier
  references identifier :=
    match operations.find? fun operation => operation.identifier = identifier with
    | some operation => operation.references
    | none => []

theorem find?_of_mem {operations : List Operation}
    (hnodup : (operations.map Operation.identifier).Nodup) {operation : Operation}
    (hmem : operation ∈ operations) :
    operations.find? (fun other => other.identifier = operation.identifier) = some operation := by
  induction operations with
  | nil => cases hmem
  | cons first rest ih =>
    rw [List.map_cons, List.nodup_cons] at hnodup
    rcases List.mem_cons.1 hmem with rfl | hrest
    · simp
    · have hne : first.identifier ≠ operation.identifier := fun heq =>
        hnodup.1 (heq ▸ List.mem_map_of_mem hrest)
      simp [hne, ih hnodup.2 hrest]

theorem idxOf_lt_idxOf {operations : List Operation}
    (hnodup : (operations.map Operation.identifier).Nodup)
    (hall : (graph operations).unordered = []) :
    ∀ operation ∈ operations, ∀ other ∈ operations,
      other.identifier ∈ operation.references →
        (graph operations).order.idxOf operation.identifier <
          (graph operations).order.idxOf other.identifier := by
  intro operation hoperation other hother href
  have hin : ∀ o ∈ operations, o.identifier ∈ (graph operations).order := by
    intro o ho
    have := List.filter_eq_nil_iff.1 hall o.identifier (List.mem_map_of_mem ho)
    simpa using this
  refine Graph.idxOf_lt_idxOf hnodup (hin _ hoperation) (hin _ hother) ?_
  simpa [graph, find?_of_mem hnodup hoperation] using href

/-- The set of operations. -/
def ofList (operations : List Operation) : Except Fault OperationSet :=
  match hnodup : firstRepeated? [] (operations.map Operation.identifier) with
  | some identifier => .error (.duplicate identifier)
  | none =>
    match hall : (graph operations).unordered with
    | [] =>
      have hnodup := (nodup_of_firstRepeated? hnodup).1
      .ok ⟨operations, hnodup, (graph operations).order, idxOf_lt_idxOf hnodup hall⟩
    | identifiers => .error (.cycle identifiers)

theorem mem_of_find? {set : OperationSet} {identifier : String} {operation : Operation}
    (h : set.find? identifier = some operation) :
    operation ∈ set.operations ∧ operation.identifier = identifier :=
  ⟨List.mem_of_find?_eq_some h, by simpa using List.find?_some h⟩

theorem rank_lt_rank {set : OperationSet} {operation other : Operation} {identifier : String}
    (hmem : operation ∈ set.operations) (hother : set.find? identifier = some other)
    (href : identifier ∈ operation.references) :
    set.rank other.identifier < set.rank operation.identifier := by
  obtain ⟨hin, heq⟩ := mem_of_find? hother
  have hlt := set.ordered operation hmem other hin (heq ▸ href)
  have hle := List.idxOf_le_length (a := other.identifier) (l := set.order)
  unfold rank
  omega

end OperationSet

end Stencil
