import Stencil.Entries

/-!
# Ordering a graph

The nodes of a graph are ordered so that each comes before those it refers to. For each node it is
counted how many references to it come from nodes that are not ordered yet; a node is ready when
there are none. Ready nodes are ordered one after the other, first come, first served. What lies on
a cycle or behind one never gets ready.

Main statement: where both are ordered, a node comes before a node that it refers to
(`idxOf_lt_idxOf`).
-/

namespace Stencil

/-- Nodes that refer to nodes, and to what is no node. -/
structure Graph where
  nodes : List String
  references : String → List String

namespace Graph

/-- How often the nodes of `sources` refer to `node`. -/
def countFrom (g : Graph) (sources : List String) (node : String) : Nat :=
  (sources.flatMap g.references).count node

/-- How far the ordering has come. -/
structure Progress where
  /-- For each node, how many references to it come from nodes that are not ordered yet. -/
  counts : Entries String Nat
  /-- The nodes that are ready, the first to be ordered in front. -/
  ready : List String
  /-- The nodes that are ordered. -/
  order : List String

namespace Progress

/-- Nothing is ordered. -/
def start (g : Graph) : Progress :=
  let targets := g.nodes.flatMap g.references
  { counts := .ofList (g.nodes.map fun node => (node, targets.count node))
    ready := g.nodes.filter fun node => targets.count node = 0
    order := [] }

/-- Counts one reference to `target` less; if it was the last one, the target is ready. -/
def release (progress : Progress) (target : String) : Progress :=
  match progress.counts.find? target with
  | none => progress
  | some count =>
    let progress := { progress with counts := progress.counts.insert target (count - 1) }
    if count - 1 = 0 then { progress with ready := progress.ready ++ [target] } else progress

/-- Orders the first node that is ready, and does so again up to `steps` times. -/
def run (g : Graph) (progress : Progress) (steps : Nat) : Progress :=
  match steps, progress.ready with
  | 0, _ | _, [] => progress
  | steps + 1, node :: ready =>
    let ordered := { progress with ready, order := progress.order ++ [node] }
    run g ((g.references node).foldl release ordered) steps

end Progress

/-- The nodes that can be ordered, in their order. -/
def order (g : Graph) : List String :=
  ((Progress.start g).run g g.nodes.length).order

/-- The nodes that cannot be ordered. -/
def unordered (g : Graph) : List String :=
  let order := g.order
  g.nodes.filter fun node => !order.contains node

/-! ## What the counts say -/

/-- What holds between two steps, `owed` being how many references to a node are still to be counted
off. -/
structure Progress.Counted (g : Graph) (owed : String → Nat) (progress : Progress) : Prop where
  counts : ∀ node, progress.counts.find? node = if node ∈ g.nodes then some (owed node) else none
  owed_eq_zero : ∀ node ∈ progress.order ++ progress.ready, node ∈ g.nodes ∧ owed node = 0
  nodup : (progress.order ++ progress.ready).Nodup

namespace Progress

variable {g : Graph} {progress : Progress}

theorem Counted.congr {owed owed' : String → Nat} (h : progress.Counted g owed)
    (heq : ∀ node, owed node = owed' node) : progress.Counted g owed' := by
  have : owed = owed' := funext heq
  exact this ▸ h

theorem Counted.release {target : String} {targets : List String} {rest : String → Nat}
    (h : progress.Counted g fun node => (target :: targets).count node + rest node) :
    (progress.release target).Counted g fun node => targets.count node + rest node := by
  by_cases hmem : target ∈ g.nodes
  · have hcount : progress.counts.find? target = some (targets.count target + rest target + 1) := by
      rw [h.counts, if_pos hmem, List.count_cons_self]
      congr 1
      omega
    have howed : ∀ node ∈ progress.order ++ progress.ready, node ≠ target := by
      intro node hnode heq
      have := (h.owed_eq_zero node hnode).2
      simp only [heq, List.count_cons_self] at this
      omega
    have hold : ∀ node ∈ progress.order ++ progress.ready,
        node ∈ g.nodes ∧ targets.count node + rest node = 0 := by
      intro node hnode
      have := h.owed_eq_zero node hnode
      rw [List.count_cons_of_ne (howed node hnode).symm] at this
      exact this
    have hcounts : ∀ node,
        (progress.counts.insert target (targets.count target + rest target)).find? node =
          if node ∈ g.nodes then some (targets.count node + rest node) else none := by
      intro node
      by_cases hn : node = target
      · subst hn
        simp [hmem]
      · rw [Entries.find?_insert_of_ne _ _ hn, h.counts,
          List.count_cons_of_ne (Ne.symm hn)]
    unfold Progress.release
    simp only [hcount, Nat.add_sub_cancel]
    split
    · next hzero =>
      refine ⟨hcounts, ?_, ?_⟩
      · intro node hnode
        rw [← List.append_assoc, List.mem_append, List.mem_singleton] at hnode
        rcases hnode with hnode | rfl
        · exact hold node hnode
        · exact ⟨hmem, hzero⟩
      · rw [← List.append_assoc, List.nodup_append]
        refine ⟨h.nodup, by simp, fun a ha b hb => ?_⟩
        rw [List.mem_singleton] at hb
        exact hb ▸ howed a ha
    · exact ⟨hcounts, hold, h.nodup⟩
  · have hnone : progress.counts.find? target = none := by rw [h.counts, if_neg hmem]
    have hsame : progress.release target = progress := by simp [Progress.release, hnone]
    have hcount : ∀ node ∈ g.nodes, (target :: targets).count node = targets.count node :=
      fun node hnode => List.count_cons_of_ne (by rintro rfl; exact hmem hnode)
    rw [hsame]
    refine ⟨fun node => ?_, fun node hnode => ?_, h.nodup⟩
    · rw [h.counts]
      split
      · next hnode => rw [hcount node hnode]
      · rfl
    · obtain ⟨hin, hzero⟩ := h.owed_eq_zero node hnode
      exact ⟨hin, by rw [← hcount node hin]; exact hzero⟩

theorem Counted.releaseAll {targets : List String} {rest : String → Nat}
    (h : progress.Counted g fun node => targets.count node + rest node) :
    (targets.foldl Progress.release progress).Counted g rest := by
  induction targets generalizing progress with
  | nil => exact h.congr fun node => by simp
  | cons target targets ih => exact ih h.release

end Progress

/-- The nodes that are not in `order`. -/
def pending (g : Graph) (order : List String) : List String :=
  g.nodes.filter fun node => !order.contains node

theorem countFrom_cons (g : Graph) (source : String) (sources : List String) (node : String) :
    g.countFrom (source :: sources) node =
      (g.references source).count node + g.countFrom sources node := by
  simp [countFrom, List.count_append]

/-- The references of a node are those that are counted when it is not ordered and not counted when
it is. -/
theorem countFrom_filter (g : Graph) {nodes order : List String} {source : String}
    (hnodup : nodes.Nodup) (hmem : source ∈ nodes) (hsource : source ∉ order) (node : String) :
    g.countFrom (nodes.filter fun n => !order.contains n) node =
      (g.references source).count node +
        g.countFrom (nodes.filter fun n => !(order ++ [source]).contains n) node := by
  induction nodes with
  | nil => cases hmem
  | cons first nodes ih =>
    rw [List.nodup_cons] at hnodup
    by_cases hfirst : first = source
    · subst hfirst
      have hsame : nodes.filter (fun n => !order.contains n) =
          nodes.filter (fun n => !(order ++ [first]).contains n) := by
        refine List.filter_congr fun n hn => ?_
        have : n ≠ first := fun heq => hnodup.1 (heq ▸ hn)
        simp [this]
      simpa [hsource, countFrom_cons] using congrArg (g.countFrom · node) hsame
    · have hmem : source ∈ nodes := by simpa [Ne.symm hfirst] using hmem
      have ih := ih hnodup.2 hmem
      by_cases hin : first ∈ order
      · simpa [hin] using ih
      · simp only [List.filter_cons, List.contains_eq_mem, List.mem_append, List.mem_singleton, hin,
          hfirst, or_self, decide_false, Bool.not_false, if_true, countFrom_cons] at ih ⊢
        omega

/-- What holds between two nodes that are ordered. -/
structure Progress.Sound (g : Graph) (progress : Progress) : Prop where
  counted : progress.Counted g (g.countFrom (g.pending progress.order))
  pairwise : progress.order.Pairwise fun a b => a ∉ g.references b
  irreflexive : ∀ node ∈ progress.order, node ∉ g.references node

theorem not_mem_references {g : Graph} {sources : List String} {node source : String}
    (h : g.countFrom sources node = 0) (hmem : source ∈ sources) : node ∉ g.references source := by
  intro hnode
  rw [countFrom, List.count_eq_zero] at h
  exact h (List.mem_flatMap.2 ⟨source, hmem, hnode⟩)

theorem Progress.order_release (progress : Progress) (target : String) :
    (progress.release target).order = progress.order := by
  unfold Progress.release
  split
  · rfl
  · split <;> rfl

theorem Progress.order_releaseAll (progress : Progress) (targets : List String) :
    (targets.foldl Progress.release progress).order = progress.order := by
  induction targets generalizing progress with
  | nil => rfl
  | cons target targets ih => rw [List.foldl_cons, ih, Progress.order_release]

/-- The progress after a node is taken off those that are ready, `ready` being the others. Its
references are still to be counted off. -/
def Progress.take (progress : Progress) (node : String) (ready : List String) : Progress :=
  { progress with ready, order := progress.order ++ [node] }

section take

variable {g : Graph} {progress : Progress} {node : String} {ready : List String}

theorem Progress.Sound.not_mem_order (h : progress.Sound g)
    (hready : progress.ready = node :: ready) : node ∉ progress.order := by
  intro hmem
  have hnodup := h.counted.nodup
  rw [hready] at hnodup
  exact (List.nodup_append.1 hnodup).2.2 node hmem node (by simp) rfl

theorem Progress.Sound.counted_take (hnodup : g.nodes.Nodup) (h : progress.Sound g)
    (hready : progress.ready = node :: ready) :
    (progress.take node ready).Counted g fun n =>
      (g.references node).count n + g.countFrom (g.pending (progress.order ++ [node])) n := by
  have hin := h.counted.owed_eq_zero node (by simp [hready])
  have hsplit := countFrom_filter g hnodup hin.1 (h.not_mem_order hready)
  have hsame : (progress.take node ready).order ++ (progress.take node ready).ready =
      progress.order ++ progress.ready := by simp [Progress.take, hready]
  have hcounted := h.counted.congr hsplit
  exact ⟨hcounted.counts, hsame ▸ hcounted.owed_eq_zero, hsame ▸ hcounted.nodup⟩

theorem Progress.Sound.step (hnodup : g.nodes.Nodup) (h : progress.Sound g)
    (hready : progress.ready = node :: ready) :
    ((g.references node).foldl Progress.release (progress.take node ready)).Sound g := by
  have hin := h.counted.owed_eq_zero node (by simp [hready])
  have hpending : node ∈ g.pending progress.order := by
    simp [pending, hin.1, h.not_mem_order hready]
  have horder : ((g.references node).foldl Progress.release (progress.take node ready)).order =
      progress.order ++ [node] := Progress.order_releaseAll _ _
  refine ⟨?_, ?_, ?_⟩
  · rw [horder]
    exact (h.counted_take hnodup hready).releaseAll
  · rw [horder, List.pairwise_append]
    refine ⟨h.pairwise, by simp, fun a ha b hb => ?_⟩
    rw [List.mem_singleton] at hb
    subst hb
    exact not_mem_references (h.counted.owed_eq_zero a (by simp [ha])).2 hpending
  · rw [horder]
    intro a ha
    rw [List.mem_append, List.mem_singleton] at ha
    rcases ha with ha | rfl
    · exact h.irreflexive a ha
    · exact not_mem_references hin.2 hpending

end take

theorem sound_run {g : Graph} (hnodup : g.nodes.Nodup) {progress : Progress}
    (h : progress.Sound g) (steps : Nat) : (progress.run g steps).Sound g := by
  induction steps generalizing progress with
  | zero => simpa [Progress.run] using h
  | succ steps ih =>
    unfold Progress.run
    split
    · exact h
    · exact h
    · next node ready heq hready =>
      cases heq
      exact ih (h.step hnodup hready)

theorem sound_start {g : Graph} (hnodup : g.nodes.Nodup) : (Progress.start g).Sound g := by
  have hpending : g.pending [] = g.nodes := by simp [pending]
  refine ⟨⟨fun node => ?_, fun node hnode => ?_, ?_⟩, List.Pairwise.nil, by simp [Progress.start]⟩
  · rw [show (Progress.start g).order = [] from rfl, hpending]
    exact Entries.find?_insertAll_map .empty g.nodes (g.countFrom g.nodes) node
  · simpa [Progress.start, hpending, countFrom] using hnode
  · exact hnodup.filter _

theorem pairwise_order {g : Graph} (hnodup : g.nodes.Nodup) :
    g.order.Pairwise fun a b => a ∉ g.references b :=
  (sound_run hnodup (sound_start hnodup) _).pairwise

theorem not_mem_references_self {g : Graph} (hnodup : g.nodes.Nodup) {node : String}
    (hnode : node ∈ g.order) : node ∉ g.references node :=
  (sound_run hnodup (sound_start hnodup) _).irreflexive node hnode

/-- A node comes before a node that it refers to. -/
theorem idxOf_lt_idxOf {g : Graph} (hnodup : g.nodes.Nodup) {a b : String} (ha : a ∈ g.order)
    (hb : b ∈ g.order) (href : b ∈ g.references a) : g.order.idxOf a < g.order.idxOf b := by
  have hia := List.idxOf_lt_length_of_mem ha
  have hib := List.idxOf_lt_length_of_mem hb
  rcases Nat.lt_trichotomy (g.order.idxOf a) (g.order.idxOf b) with hlt | heq | hgt
  · exact hlt
  · have hab : a = b := by
      rw [← List.getElem_idxOf hia, ← List.getElem_idxOf hib]
      simp [heq]
    exact absurd (hab ▸ href) (not_mem_references_self hnodup ha)
  · have := List.pairwise_iff_getElem.1 (pairwise_order hnodup) _ _ hib hia hgt
    rw [List.getElem_idxOf hib, List.getElem_idxOf hia] at this
    exact absurd href this

end Graph

end Stencil
