import Mathlib.Data.List.Perm.Basic
import Mathlib.Data.Set.List
import Stencil.Generation
import Stencil.OperationSet.Reader
import Stencil.Proofs.Execution.Trace
import Stencil.Proofs.OperationSet
import Stencil.Proofs.Results

/-!
# Which operations a main operation depends on

An operation that is run looks up nothing but what it refers to, be it there or not. So two sets in
which a main operation comes to the same operations have the same run of it
(`runMain_eq_of_reaches`); this is an induction on the rank in one of the sets. What lies elsewhere
in the set may change and the operations may stand in any order, and the same files are made;
whether operations make a set does not depend on their order either (`run_depends_on_reachable`).
-/

namespace Stencil

namespace OperationSet

/-- A run of `main` may come to the identifier: `main` refers to it, or refers to an operation from
which a run may come to it. There need not be an operation of the identifier. -/
inductive Reaches (set : OperationSet) (main : String) : String → Prop where
  | main : Reaches set main main
  | refers {identifier operation reference} : Reaches set main identifier →
    set.find? identifier = some operation → reference ∈ operation.references →
    Reaches set main reference

section lookup

variable {set set' : OperationSet} {main identifier : String}

theorem find?_eq_some_iff {operation : Operation} :
    set.find? identifier = some operation ↔
      operation ∈ set.operations ∧ operation.identifier = identifier := by
  constructor
  · exact mem_of_find?
  · rintro ⟨hmem, rfl⟩
    exact find?_of_mem set.distinct hmem

/-- Two sets agree on an identifier if they have the same operations that it may belong to. -/
theorem find?_eq_of_mem_iff (h : ∀ operation : Operation, operation.identifier = identifier →
    (operation ∈ set.operations ↔ operation ∈ set'.operations)) :
    set.find? identifier = set'.find? identifier := by
  apply Option.ext
  intro operation
  rw [find?_eq_some_iff, find?_eq_some_iff]
  constructor
  · rintro ⟨hmem, heq⟩
    exact ⟨(h operation heq).1 hmem, heq⟩
  · rintro ⟨hmem, heq⟩
    exact ⟨(h operation heq).2 hmem, heq⟩

/-- If no run of `main` comes to an operation that only one of the sets has, the sets agree wherever
a run of `main` comes. -/
theorem Reaches.find?_eq
    (hset : ∀ operation ∈ set.operations, operation ∉ set'.operations →
      ¬ set.Reaches main operation.identifier)
    (hset' : ∀ operation ∈ set'.operations, operation ∉ set.operations →
      ¬ set'.Reaches main operation.identifier)
    (h : set.Reaches main identifier) :
    set'.Reaches main identifier ∧ set.find? identifier = set'.find? identifier := by
  have hfind : ∀ {identifier}, set.Reaches main identifier → set'.Reaches main identifier →
      set.find? identifier = set'.find? identifier := by
    intro identifier hreaches hreaches'
    apply find?_eq_of_mem_iff
    rintro operation rfl
    constructor
    · intro hmem
      by_contra hnot
      exact hset operation hmem hnot hreaches
    · intro hmem
      by_contra hnot
      exact hset' operation hmem hnot hreaches'
  -- What the sets agree on refers to the same, so a way in one set is a way in the other.
  have hreaches' : set'.Reaches main identifier := by
    induction h with
    | main => exact .main
    | refers hreaches hoperation href ih =>
      rw [hfind hreaches ih] at hoperation
      exact .refers ih hoperation href
  exact ⟨hreaches', hfind h hreaches'⟩

end lookup

/-! ## The order of the operations -/

theorem refers_of_perm {operations operations' : List Operation} (h : operations'.Perm operations) :
    Refers operations' = Refers operations := by
  funext a b
  simp only [Refers, h.mem_iff, (h.map Operation.identifier).mem_iff]

/-- Operations that make a set make one in any order. -/
theorem exists_ofList_of_perm {operations operations' : List Operation} {set : OperationSet}
    (hset : ofList operations = .ok set) (h : operations'.Perm operations) :
    ∃ set', ofList operations' = .ok set' ∧ set'.operations = operations' := by
  have hnodup := nodup_of_ofList hset
  have hnodup' : (operations'.map Operation.identifier).Nodup :=
    (h.map Operation.identifier).nodup_iff.2 hnodup
  obtain ⟨-, -, -, hordered⟩ | ⟨hfault, -⟩ := ofList_of_nodup hnodup
  · have hordered' : (graph operations').unordered = [] := by
      rw [unordered_graph_eq_nil_iff hnodup', refers_of_perm h]
      exact (unordered_graph_eq_nil_iff hnodup).1 hordered
    obtain ⟨set', hset', hoperations', -⟩ | ⟨-, hunordered⟩ := ofList_of_nodup hnodup'
    · exact ⟨set', hset', hoperations'⟩
    · exact absurd hordered' hunordered
  · rw [hset] at hfault
    cases hfault

theorem readAll_eq_ok_iff {text : String} {operations : List Operation} :
    readAll text = .ok operations ↔ readDocuments text = operations.map .ok := by
  unfold readAll
  induction readDocuments text generalizing operations with
  | nil => cases operations <;> simp [readAll.collect]
  | cons result results ih =>
    cases result with
    | error fault => cases operations <;> simp [readAll.collect]
    | ok operation =>
      rw [readAll.collect, map_eq_ok_iff]
      constructor
      · rintro ⟨rest, hrest, rfl⟩
        rw [ih.1 hrest, List.map_cons]
      · intro h
        cases operations with
        | nil => cases h
        | cons first rest =>
          obtain ⟨hfirst, hrest⟩ := List.cons.inj h
          cases hfirst
          exact ⟨rest, ih.2 hrest, rfl⟩

theorem read_eq_ok_iff_exists {text : String} {set : OperationSet} :
    read text = .ok set ↔ ∃ operations, readDocuments text = operations.map .ok ∧
      ofList operations = .ok set := by
  rw [read, bind_eq_ok_iff]
  constructor
  · rintro ⟨operations, hread, hset⟩
    refine ⟨operations, readAll_eq_ok_iff.1 hread, ?_⟩
    split at hset
    · next heq =>
      cases hset
      exact heq
    · cases hset
  · rintro ⟨operations, hread, hset⟩
    refine ⟨operations, readAll_eq_ok_iff.2 hread, ?_⟩
    rw [hset]
    rfl

/-- A text whose documents describe the same in another order is a set too. -/
theorem exists_read_of_perm {text text' : String} {set : OperationSet} (hset : read text = .ok set)
    (h : (readDocuments text').Perm (readDocuments text)) :
    ∃ set', read text' = .ok set' ∧ set'.operations.Perm set.operations := by
  obtain ⟨operations, hdocuments, hoperations⟩ := read_eq_ok_iff_exists.1 hset
  rw [hdocuments] at h
  obtain ⟨operations', hdocuments'⟩ : readDocuments text' ∈ Set.range (List.map Except.ok) := by
    rw [Set.range_list_map]
    intro result hresult
    obtain ⟨operation, -, rfl⟩ := List.mem_map.1 (h.mem_iff.1 hresult)
    exact ⟨operation, rfl⟩
  rw [← hdocuments', List.map_perm_map_iff (fun _ _ heq => Except.ok.inj heq)] at h
  obtain ⟨set', hset', hoperations'⟩ := exists_ofList_of_perm hoperations h
  refine ⟨set', read_eq_ok_iff_exists.2 ⟨operations', hdocuments'.symm, hset'⟩, ?_⟩
  rw [hoperations', operations_of_ofList hoperations]
  exact h

end OperationSet

/-! ## Runs in two sets -/

namespace Execution

variable {environment : Environment} {target : Path}

theorem runReference_of_find? {parent reference : String} {other : Operation}
    (hfind : environment.operations.find? reference = some other) :
    runReference environment target parent reference =
      runOperation environment target other (OperationSet.mem_of_find? hfind).1 >>=
        fun _ => pure true := by
  unfold runReference
  split
  · next other' hfind' =>
    cases hfind.symm.trans hfind'
    rfl
  · next hnone => cases hfind.symm.trans hnone

theorem runReference_of_none {parent reference : String}
    (hfind : environment.operations.find? reference = none) :
    runReference environment target parent reference =
      Run.tell .warn .execution ("Missing operation: " ++ reference ++ " referenced by: " ++ parent)
        >>= fun _ => pure false := by
  unfold runReference
  split
  · next hsome => cases hfind.symm.trans hsome
  · rfl

section sets

variable {set set' : OperationSet} {main : String}
  (h : ∀ identifier, set.Reaches main identifier → set.find? identifier = set'.find? identifier)
  (project : Project) (templates : Templates)

include h in
/-- What an operation runs is the same in both sets, as it refers to it. -/
theorem runOperation_eq_of_reaches (target : Path) (operation : Operation)
    (hmem : operation ∈ set.operations) (hmem' : operation ∈ set'.operations)
    (hreaches : set.Reaches main operation.identifier) :
    runOperation ⟨set, project, templates⟩ target operation hmem =
      runOperation ⟨set', project, templates⟩ target operation hmem' := by
  induction hrank : set.rank operation.identifier using
    Nat.strongRecOn generalizing operation with
  | _ rank ih =>
    have hoperation : set.find? operation.identifier = some operation :=
      OperationSet.find?_of_mem set.distinct hmem
    have hreferences : (fun reference (_ : reference ∈ operation.kind.references) =>
          runReference ⟨set, project, templates⟩ target operation.identifier reference) =
        fun reference _ =>
          runReference ⟨set', project, templates⟩ target operation.identifier reference := by
      funext reference href
      have hreference : set.Reaches main reference := .refers hreaches hoperation href
      have hsame := h reference hreference
      cases hfind : set.find? reference with
      | none =>
        rw [runReference_of_none hfind, runReference_of_none (hsame.symm.trans hfind)]
      | some other =>
        have hlt : set.rank other.identifier < rank :=
          hrank ▸ OperationSet.rank_lt_rank hmem hfind href
        obtain ⟨hother, rfl⟩ := OperationSet.mem_of_find? hfind
        have hfind' := hsame.symm.trans hfind
        have hrun := ih _ hlt other hother (OperationSet.mem_of_find? hfind').1 hreference rfl
        rw [runReference_of_find? hfind, runReference_of_find? hfind', hrun]
    -- The operations of the set matter to a run only through what is referred to.
    have hperform : perform ⟨set, project, templates⟩ target operation.identifier operation.kind =
        perform ⟨set', project, templates⟩ target operation.identifier operation.kind := by
      cases operation.kind <;> rfl
    have happlies : applies ⟨set, project, templates⟩ operation =
        applies ⟨set', project, templates⟩ operation := rfl
    rw [runOperation_eq, runOperation_eq, hreferences, hperform, happlies]

include h in
/-- Two sets in which `main` comes to the same operations have the same run of it. -/
theorem runMain_eq_of_reaches (target : Path) :
    runMain ⟨set, project, templates⟩ target main =
      runMain ⟨set', project, templates⟩ target main := by
  have hsame := h main .main
  cases hfind : set.find? main with
  | none => rw [runMain_of_none hfind, runMain_of_none (hsame.symm.trans hfind)]
  | some operation =>
    have hfind' := hsame.symm.trans hfind
    obtain ⟨hmem, rfl⟩ := OperationSet.mem_of_find? hfind
    have hrun := runOperation_eq_of_reaches h project templates target operation hmem
      (OperationSet.mem_of_find? hfind').1 .main
    rw [runMain_of_find? hfind, runMain_of_find? hfind', hrun]

end sets

end Execution

/-! ## Files that are made out of two sets -/

namespace Generation

/-- What files are made from, but with the operations of the set. -/
def withOperations (generation : Generation) (set : OperationSet) : Generation :=
  { generation with operations := set }

/-- Whatever else files are made from, the main operation makes the same text and the same file. -/
def MakesSame (set set' : OperationSet) (main : String) : Prop :=
  ∀ generation : Generation,
    (∀ extra, (generation.withOperations set).text main extra =
      (generation.withOperations set').text main extra) ∧
    ∀ directory, (generation.withOperations set).generateFile directory main =
      (generation.withOperations set').generateFile directory main

theorem makesSame_of_reaches {set set' : OperationSet} {main : String}
    (h : ∀ identifier, set.Reaches main identifier →
      set.find? identifier = set'.find? identifier) : MakesSame set set' main := by
  intro generation
  have hrun : ∀ store target,
      Execution.runMain ((generation.withOperations set).environment store) target main =
        Execution.runMain ((generation.withOperations set').environment store) target main :=
    fun store target => Execution.runMain_eq_of_reaches h _ _ target
  constructor
  · intro extra
    simp only [text, hrun]
    rfl
  · intro directory
    simp only [generateFile, generateFileBy, hrun]
    rfl

/-- The run of a main operation depends on what the set has for the identifiers to which it may
come, and on nothing else of the set. So operations to which it does not come may be added, taken
away or changed without any difference to what it makes, and so may the order of the documents that
describe the operations. Whether operations make a set does not depend on their order. -/
theorem run_depends_on_reachable :
    (∀ (set set' : OperationSet) (main : String),
      (∀ identifier, set.Reaches main identifier →
        set.find? identifier = set'.find? identifier) →
      ∀ project templates target state,
        (Execution.runMain ⟨set, project, templates⟩ target main).run.run state =
          (Execution.runMain ⟨set', project, templates⟩ target main).run.run state) ∧
    (∀ operations operations' set set' main,
      OperationSet.ofList operations = .ok set → OperationSet.ofList operations' = .ok set' →
      (∀ operation ∈ operations, operation ∉ operations' →
        ¬ set.Reaches main operation.identifier) →
      (∀ operation ∈ operations', operation ∉ operations →
        ¬ set'.Reaches main operation.identifier) →
      MakesSame set set' main) ∧
    (∀ text text' set, OperationSet.read text = .ok set →
      (OperationSet.readDocuments text').Perm (OperationSet.readDocuments text) →
      ∃ set', OperationSet.read text' = .ok set' ∧ ∀ main, MakesSame set set' main) ∧
    ∀ operations, (∃ set, OperationSet.ofList operations = .ok set) ↔
      ∀ operations', operations'.Perm operations →
        ∃ set, OperationSet.ofList operations' = .ok set := by
  refine ⟨?_, ?_, ?_, ?_⟩
  · intro set set' main h project templates target state
    rw [Execution.runMain_eq_of_reaches h project templates target]
  · intro operations operations' set set' main hset hset' hremoved hadded
    apply makesSame_of_reaches
    intro identifier hreaches
    rw [← OperationSet.operations_of_ofList hset, ← OperationSet.operations_of_ofList hset']
      at hremoved hadded
    exact (hreaches.find?_eq hremoved hadded).2
  · intro text text' set hset hperm
    obtain ⟨set', hset', hoperations⟩ := OperationSet.exists_read_of_perm hset hperm
    refine ⟨set', hset', fun main => makesSame_of_reaches fun identifier _ => ?_⟩
    exact OperationSet.find?_eq_of_mem_iff fun operation _ => hoperations.mem_iff.symm
  · intro operations
    constructor
    · rintro ⟨set, hset⟩ operations' hperm
      obtain ⟨set', hset', -⟩ := OperationSet.exists_ofList_of_perm hset hperm
      exact ⟨set', hset'⟩
    · intro h
      exact h operations (.refl operations)

/-- A set with an operation to which no run of `main` comes, and the set without it. -/
theorem run_depends_on_reachable_spare :
    let part : Operation := ⟨"part", none, .template "part.txt" [] none []⟩
    let main : Operation := ⟨"main", none, .group ["part", "missing"]⟩
    let spare : Operation := ⟨"spare", none, .group ["main"]⟩
    let set : OperationSet := ⟨[main, part], by decide, ["main", "part"], by decide⟩
    let set' : OperationSet :=
      ⟨[spare, part, main], by decide, ["spare", "main", "part"], by decide⟩
    let templates : Execution.Templates := ⟨⟨"templates"⟩, fun _ => some (.ok "text")⟩
    (∀ identifier, set.Reaches "main" identifier →
      set.find? identifier = set'.find? identifier) ∧
    ∀ state, (Execution.runMain ⟨set, .empty, templates⟩ ⟨"out"⟩ "main").run.run state =
      (Execution.runMain ⟨set', .empty, templates⟩ ⟨"out"⟩ "main").run.run state := by
  intro part main spare set set' templates
  have hreached : ∀ identifier, set.Reaches "main" identifier →
      identifier ∈ ["main", "part", "missing"] := by
    intro identifier hreaches
    induction hreaches with
    | main => decide
    | refers _ hfind href ih =>
      simp only [List.mem_cons, List.not_mem_nil, or_false] at ih
      rcases ih with rfl | rfl | rfl
      · cases hfind
        exact List.mem_cons_of_mem _ href
      · cases hfind
        cases href
      · cases hfind
  have hsame : ∀ identifier, set.Reaches "main" identifier →
      set.find? identifier = set'.find? identifier := by
    intro identifier hreaches
    have hmem := hreached identifier hreaches
    simp only [List.mem_cons, List.not_mem_nil, or_false] at hmem
    rcases hmem with rfl | rfl | rfl <;> rfl
  exact ⟨hsame, run_depends_on_reachable.1 set set' "main" hsame .empty templates ⟨"out"⟩⟩

end Generation

end Stencil
