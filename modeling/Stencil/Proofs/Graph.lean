import Mathlib.Data.Fintype.Card
import Mathlib.Data.Set.Finite.Basic
import Mathlib.Logic.Relation
import Mathlib.Order.WellFounded
import Stencil.Graph

/-!
# Which nodes can be ordered

The ordering of a graph leaves out exactly the nodes that lie on a cycle or behind one
(`mem_unordered_iff`). That nothing on a cycle is ordered follows from the order itself: it is
closed under predecessors (`Edge.mem_order`) and a node comes before those it refers to. The
converse needs that the ordering does not stop early: a node that owes no references is ordered or
ready (`Progress.Covers`), so a node that is left out has a predecessor that is left out, and in a
finite graph going back along these ends in a cycle (`exists_cycle_behind`).

While references are counted off no count that is lowered is zero, and no node gets ready twice
(`ordersOnce`).
-/

namespace Stencil.Graph

open Relation

/-! ## Cycles in finite relations -/

section cycle

variable {α : Type*}

/-- `x` lies on a cycle of `r` or behind one. -/
def OnOrBehindCycle (r : α → α → Prop) (x : α) : Prop :=
  ∃ a, TransGen r a a ∧ ReflTransGen r a x

theorem OnOrBehindCycle.of_cycle {r : α → α → Prop} {x : α} (h : TransGen r x x) :
    OnOrBehindCycle r x :=
  ⟨x, h, .refl⟩

theorem OnOrBehindCycle.tail {r : α → α → Prop} {x y : α} (h : OnOrBehindCycle r x) (hxy : r x y) :
    OnOrBehindCycle r y := by
  obtain ⟨a, ha, hax⟩ := h
  exact ⟨a, ha, hax.tail hxy⟩

/-- Where every element has a predecessor, finitely many elements lie behind a cycle. -/
theorem exists_cycle_behind {r : α → α → Prop} {l : List α} (hpred : ∀ x ∈ l, ∃ y ∈ l, r y x)
    {x : α} (hx : x ∈ l) : OnOrBehindCycle r x := by
  by_contra hnot
  -- Among the elements that are not behind a cycle there is one that nothing among them leads to.
  let T := {y : α // y ∈ l ∧ ¬ OnOrBehindCycle r y}
  have hfinite : Finite T := (l.finite_toSet.subset fun y hy => hy.1).to_subtype
  let leads : T → T → Prop := fun a b => TransGen r a.1 b.1
  have : IsTrans T leads := ⟨fun a b c hab hbc => TransGen.trans hab hbc⟩
  have : Std.Irrefl leads := ⟨fun a ha => a.2.2 (.of_cycle ha)⟩
  have hwf : WellFounded leads := Finite.wellFounded_of_trans_of_irrefl leads
  obtain ⟨m, -, hmin⟩ := hwf.has_min Set.univ ⟨⟨x, hx, hnot⟩, trivial⟩
  obtain ⟨y, hy, hym⟩ := hpred m.1 m.2.1
  have hnoty : ¬ OnOrBehindCycle r y := fun h => m.2.2 (h.tail hym)
  exact hmin ⟨y, hy, hnoty⟩ trivial (TransGen.single hym)

end cycle

/-! ## The ordering does not stop early -/

/-- Every node that owes no references is ordered or ready. -/
def Progress.Covers (g : Graph) (owed : String → Nat) (progress : Progress) : Prop :=
  ∀ node ∈ g.nodes, owed node = 0 → node ∈ progress.order ++ progress.ready

section covers

variable {g : Graph} {progress : Progress}

theorem Progress.Covers.release {target : String} {targets : List String} {rest : String → Nat}
    (hcounted : progress.Counted g fun node => (target :: targets).count node + rest node)
    (h : progress.Covers g fun node => (target :: targets).count node + rest node) :
    (progress.release target).Covers g fun node => targets.count node + rest node := by
  intro node hnode howed
  dsimp only at howed
  by_cases hsame : node = target
  · subst hsame
    have hcount : progress.counts.find? node = some 1 := by
      rw [hcounted.counts, if_pos hnode, List.count_cons_self]
      congr 1
      omega
    simp [Progress.release, hcount]
  · have hmem : node ∈ progress.order ++ progress.ready := by
      refine h node hnode ?_
      dsimp only
      rw [List.count_cons_of_ne (Ne.symm hsame)]
      exact howed
    rw [Progress.order_release]
    unfold Progress.release
    split
    · exact hmem
    · split
      · rw [← List.append_assoc]
        exact List.mem_append_left _ hmem
      · exact hmem

theorem Progress.Covers.releaseAll {targets : List String} {rest : String → Nat}
    (hcounted : progress.Counted g fun node => targets.count node + rest node)
    (h : progress.Covers g fun node => targets.count node + rest node) :
    (targets.foldl Progress.release progress).Covers g rest := by
  induction targets generalizing progress with
  | nil =>
    intro node hnode howed
    exact h node hnode (by simpa using howed)
  | cons target targets ih => exact ih hcounted.release (h.release hcounted)

/-- What holds between two steps: the counts are right, and no node is forgotten. -/
structure Progress.Complete (g : Graph) (progress : Progress) : Prop extends
    progress.Sound g where
  covers : progress.Covers g (g.countFrom (g.pending progress.order))

theorem Progress.Complete.step (hnodup : g.nodes.Nodup) (h : progress.Complete g) {node : String}
    {ready : List String} (hready : progress.ready = node :: ready) :
    ((g.references node).foldl Progress.release (progress.take node ready)).Complete g := by
  have htake := h.toSound.counted_take hnodup hready
  refine ⟨h.toSound.step hnodup hready, ?_⟩
  rw [Progress.order_releaseAll]
  refine Progress.Covers.releaseAll htake fun n hn howed => ?_
  have hin := h.counted.owed_eq_zero node (by simp [hready])
  have hsplit := countFrom_filter g hnodup hin.1 (h.toSound.not_mem_order hready) n
  have hmem := h.covers n hn (hsplit.trans howed)
  simpa [Progress.take, hready] using hmem

theorem complete_start (hnodup : g.nodes.Nodup) : (Progress.start g).Complete g := by
  refine ⟨sound_start hnodup, fun node hnode howed => ?_⟩
  have hpending : g.pending (Progress.start g).order = g.nodes := by simp [pending, Progress.start]
  rw [hpending] at howed
  simpa [Progress.start, hnode, countFrom] using howed

theorem complete_run (hnodup : g.nodes.Nodup) (h : progress.Complete g) (steps : Nat) :
    (progress.run g steps).Complete g := by
  induction steps generalizing progress with
  | zero => simpa [Progress.run] using h
  | succ steps ih =>
    unfold Progress.run
    split
    · exact h
    · exact h
    · next node ready heq hready =>
      cases heq
      exact ih (h.step hnodup hready)

/-- Each step orders one node more, as long as one is ready. -/
theorem ready_run_eq_nil_or (progress : Progress) (steps : Nat) :
    (progress.run g steps).ready = [] ∨
      (progress.run g steps).order.length = progress.order.length + steps := by
  induction steps generalizing progress with
  | zero => exact .inr rfl
  | succ steps ih =>
    unfold Progress.run
    split
    · next heq => cases heq
    · next hready _ => exact .inl hready
    · next node ready heq hready =>
      cases heq
      rcases ih ((g.references node).foldl Progress.release (progress.take node ready)) with h | h
      · exact .inl h
      · refine .inr (h.trans ?_)
        rw [Progress.order_releaseAll]
        simp only [Progress.take, List.length_append, List.length_singleton]
        omega

theorem Progress.Counted.length_le {owed : String → Nat} (h : progress.Counted g owed) :
    progress.order.length + progress.ready.length ≤ g.nodes.length := by
  have hsub : progress.order ++ progress.ready ⊆ g.nodes := fun node hnode =>
    (h.owed_eq_zero node hnode).1
  simpa using (h.nodup.subperm hsub).length_le

/-- After as many steps as there are nodes none is ready any more. -/
theorem ready_run_length (hnodup : g.nodes.Nodup) :
    ((Progress.start g).run g g.nodes.length).ready = [] := by
  rcases ready_run_eq_nil_or (g := g) (Progress.start g) g.nodes.length with h | h
  · exact h
  · have hle := (sound_run hnodup (sound_start hnodup) g.nodes.length).counted.length_le
    have hstart : (Progress.start g).order.length = 0 := rfl
    exact List.eq_nil_of_length_eq_zero (by omega)

/-- At every point of the ordering, between two steps and within one, no node is ordered or ready
twice; and a reference is counted off only where the count of its target is not zero. -/
def OrdersOnce (g : Graph) : Prop :=
  ∀ steps : Nat, let progress := (Progress.start g).run g steps
    (progress.order ++ progress.ready).Nodup ∧
      ∀ node ready before target after, progress.ready = node :: ready →
        g.references node = before ++ target :: after →
          let lowered := before.foldl Progress.release (progress.take node ready)
          (lowered.order ++ lowered.ready).Nodup ∧ lowered.counts.find? target ≠ some 0

theorem Progress.Sound.counted_lowered (hnodup : g.nodes.Nodup) (h : progress.Sound g)
    {node : String} {ready before after : List String} {target : String}
    (hready : progress.ready = node :: ready)
    (hrefs : g.references node = before ++ target :: after) :
    (before.foldl Progress.release (progress.take node ready)).Counted g fun n =>
      (target :: after).count n + g.countFrom (g.pending (progress.order ++ [node])) n := by
  have htake := h.counted_take hnodup hready
  simp only [hrefs, List.count_append, Nat.add_assoc] at htake
  exact htake.releaseAll

theorem ordersOnce (hnodup : g.nodes.Nodup) : g.OrdersOnce := by
  intro steps
  have hsound := sound_run hnodup (sound_start hnodup) steps
  refine ⟨hsound.counted.nodup, fun node ready before target after hready hrefs => ?_⟩
  have hcounted := hsound.counted_lowered hnodup hready hrefs
  refine ⟨hcounted.nodup, ?_⟩
  -- The reference that is counted off next is itself part of what its target is owed.
  rw [hcounted.counts]
  split
  · simp
  · simp

end covers

/-! ## What is ordered -/

section edge

variable {g : Graph} {a b node : String}

/-- The node `a` refers to the node `b`. -/
def Edge (g : Graph) (a b : String) : Prop :=
  a ∈ g.nodes ∧ b ∈ g.nodes ∧ b ∈ g.references a

theorem complete_order (hnodup : g.nodes.Nodup) :
    ((Progress.start g).run g g.nodes.length).Complete g :=
  complete_run hnodup (complete_start hnodup) _

theorem mem_order_iff (hnodup : g.nodes.Nodup) :
    node ∈ g.order ↔ node ∈ g.nodes ∧ g.countFrom (g.pending g.order) node = 0 := by
  have hcomplete := complete_order hnodup
  have hready := ready_run_length hnodup
  constructor
  · intro hnode
    exact hcomplete.counted.owed_eq_zero node (List.mem_append_left _ hnode)
  · rintro ⟨hnode, howed⟩
    have := hcomplete.covers node hnode howed
    rw [hready, List.append_nil] at this
    exact this

/-- What refers to a node that is ordered is ordered. -/
theorem Edge.mem_order (hnodup : g.nodes.Nodup) (h : g.Edge a b) (hb : b ∈ g.order) :
    a ∈ g.order := by
  by_contra ha
  have hpending : a ∈ g.pending g.order := by simp [pending, h.1, ha]
  exact not_mem_references ((mem_order_iff hnodup).1 hb).2 hpending h.2.2

/-- A node that is left out has a predecessor that is left out. -/
theorem exists_edge_of_not_mem_order (hnodup : g.nodes.Nodup) (hb : b ∈ g.nodes)
    (hnot : b ∉ g.order) : ∃ a ∈ g.pending g.order, g.Edge a b := by
  have howed : g.countFrom (g.pending g.order) b ≠ 0 := fun h =>
    hnot ((mem_order_iff hnodup).2 ⟨hb, h⟩)
  rw [countFrom, Ne, List.count_eq_zero, not_not, List.mem_flatMap] at howed
  obtain ⟨a, ha, href⟩ := howed
  exact ⟨a, ha, (List.mem_filter.1 ha).1, hb, href⟩

theorem lt_of_transGen (hnodup : g.nodes.Nodup) (h : TransGen g.Edge a b) (hb : b ∈ g.order) :
    a ∈ g.order ∧ g.order.idxOf a < g.order.idxOf b := by
  induction h with
  | single hab =>
    have ha := hab.mem_order hnodup hb
    exact ⟨ha, idxOf_lt_idxOf hnodup ha hb hab.2.2⟩
  | tail _ hbc ih =>
    have hmid := hbc.mem_order hnodup hb
    obtain ⟨ha, hlt⟩ := ih hmid
    exact ⟨ha, hlt.trans (idxOf_lt_idxOf hnodup hmid hb hbc.2.2)⟩

theorem not_mem_order_of_onOrBehindCycle (hnodup : g.nodes.Nodup)
    (h : OnOrBehindCycle g.Edge node) : node ∉ g.order := by
  intro hnode
  obtain ⟨a, hcycle, hpath⟩ := h
  have ha : a ∈ g.order := by
    rcases reflTransGen_iff_eq_or_transGen.1 hpath with rfl | hpath
    · exact hnode
    · exact (lt_of_transGen hnodup hpath hnode).1
  exact Nat.lt_irrefl _ (lt_of_transGen hnodup hcycle ha).2

/-- The nodes that cannot be ordered are those that lie on a cycle or behind one. -/
theorem mem_unordered_iff (hnodup : g.nodes.Nodup) :
    node ∈ g.unordered ↔ node ∈ g.nodes ∧ OnOrBehindCycle g.Edge node := by
  have hunordered : g.unordered = g.pending g.order := rfl
  constructor
  · intro hnode
    refine ⟨(List.mem_filter.1 hnode).1, ?_⟩
    refine exists_cycle_behind (l := g.pending g.order) (fun b hb => ?_) (hunordered ▸ hnode)
    obtain ⟨hin, hout⟩ := List.mem_filter.1 hb
    exact exists_edge_of_not_mem_order hnodup hin (by simpa using hout)
  · rintro ⟨hnode, hbehind⟩
    have hnot := not_mem_order_of_onOrBehindCycle hnodup hbehind
    simpa [hunordered, pending, hnode] using hnot

end edge

end Stencil.Graph
