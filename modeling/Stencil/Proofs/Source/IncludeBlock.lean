import Stencil.Proofs.Sorting.Places
import Stencil.Source.Include

/-!
# Sorted blocks of includes

A *block* is a longest run of include lines (`IsBlock`). Sorting treats what stands before a block,
the block and what stands behind it apart from each other (`IsBlock.sortIncludes_eq`), so every
other line stays at its place, and a block is replaced by its stable sort. In a block, lines with
the same header are alike and no others (`compareIncludes_eq_eq_iff`): two blocks are sorted alike
exactly if they hold the same lines of each header in the same order. All of this is put together in
`sortIncludes_sorts_blocks`.

The places are followed through the sort as well: `exists_ordered_sortIncludes` tells where each
line goes, and when two lines change places.
-/

namespace Stencil.Source

open Text

/-! ## The order of include lines -/

instance : Std.TransCmp compareIncludes :=
  inferInstanceAs <| Std.TransCmp <|
    compareLex (compareOn fun line => header line != leadingHeader) <|
      compareLex (compareOn fun line => (header line).head? == some '"') (compareOn header)

theorem compareIncludes_eq_eq_iff (a b : Line) :
    compareIncludes a b = .eq ↔ header a = header b := by
  simp only [compareIncludes, Ordering.then_eq_eq, Std.LawfulEqOrd.compare_eq_iff_eq]
  exact ⟨fun h => h.2.2, fun h => by simp [h]⟩

theorem compareIncludes_trans (a b c : Line) (h : (compareIncludes a b).isLE = true)
    (h' : (compareIncludes b c).isLE = true) : (compareIncludes a c).isLE = true :=
  Std.TransCmp.isLE_trans h h'

theorem compareIncludes_total (a b : Line) :
    (compareIncludes a b).isLE = true ∨ (compareIncludes b a).isLE = true :=
  isLE_or_isLE a b

theorem sortBlock_sortBlock (block : List Line) : sortBlock (sortBlock block) = sortBlock block :=
  stableSort_stableSort compareIncludes_trans compareIncludes_total block

theorem perm_sortBlock (block : List Line) : (sortBlock block).Perm block :=
  perm_stableSort _ block

/-- Blocks are sorted alike if the lines of each header are the same and come in the same order. -/
theorem sortBlock_eq_iff_filter (block block' : List Line) :
    sortBlock block = sortBlock block' ↔
      ∀ h, block.filter (fun line => header line = h) =
        block'.filter (fun line => header line = h) := by
  refine stableSort_eq_iff_filter (fun a b => ?_) compareIncludes_trans compareIncludes_total _ _
  rw [← compareIncludes_eq_eq_iff]
  constructor
  · rintro ⟨hle, hge⟩
    exact Std.OrientedCmp.isLE_antisymm hle hge
  · intro heq
    rw [heq, Std.OrientedCmp.eq_symm heq]
    exact ⟨rfl, rfl⟩

/-! ## Lines before and behind a block -/

theorem sortIncludes_nil : sortIncludes [] = [] := rfl

theorem sortIncludesFrom_append {lines : List Line} (h : ∀ line ∈ lines, isInclude line = true)
    (block rest : List Line) :
    sortIncludesFrom block (lines ++ rest) = sortIncludesFrom (block ++ lines) rest := by
  induction lines generalizing block with
  | nil => rw [List.nil_append, List.append_nil]
  | cons line lines ih =>
    rw [List.forall_mem_cons] at h
    rw [List.cons_append, sortIncludesFrom, if_pos h.1, ih h.2, List.append_assoc,
      List.singleton_append]

theorem sortIncludesFrom_cons {line : Line} (h : isInclude line = false)
    (block lines : List Line) :
    sortIncludesFrom block (line :: lines) = sortBlock block ++ line :: sortIncludes lines := by
  rw [sortIncludesFrom, h, if_neg Bool.false_ne_true, sortIncludes]

theorem sortIncludes_cons {line : Line} (h : isInclude line = false) (lines : List Line) :
    sortIncludes (line :: lines) = line :: sortIncludes lines :=
  sortIncludesFrom_cons h [] lines

/-- A line that is no include line separates what stands before it from what stands behind it. -/
theorem sortIncludesFrom_append_cons {line : Line} (h : isInclude line = false)
    (block front rest : List Line) :
    sortIncludesFrom block (front ++ line :: rest) =
      sortIncludesFrom block front ++ line :: sortIncludes rest := by
  induction front generalizing block with
  | nil => exact sortIncludesFrom_cons h block rest
  | cons other front ih =>
    cases hother : isInclude other with
    | true =>
      rw [List.cons_append, sortIncludesFrom, sortIncludesFrom, hother, if_pos rfl, if_pos rfl, ih]
    | false =>
      have hfront : sortIncludes (front ++ line :: rest) =
          sortIncludes front ++ line :: sortIncludes rest := ih []
      rw [List.cons_append, sortIncludesFrom_cons hother, sortIncludesFrom_cons hother, hfront,
        List.append_assoc, List.cons_append]

theorem sortIncludes_append_cons {line : Line} (h : isInclude line = false)
    (front rest : List Line) :
    sortIncludes (front ++ line :: rest) = sortIncludes front ++ line :: sortIncludes rest :=
  sortIncludesFrom_append_cons h [] front rest

/-- `block` is a longest run of include lines, with `front` before it and `rest` behind it. -/
structure IsBlock (front block rest : List Line) : Prop where
  isInclude : ∀ line ∈ block, isInclude line = true
  front_ends : ∀ line, front.getLast? = some line → Source.isInclude line = false
  rest_begins : ∀ line, rest.head? = some line → Source.isInclude line = false

/-- A block is sorted, and what stands before it and behind it is sorted apart from it. -/
theorem IsBlock.sortIncludes_eq {front block rest : List Line} (h : IsBlock front block rest) :
    sortIncludes (front ++ (block ++ rest)) =
      sortIncludes front ++ (sortBlock block ++ sortIncludes rest) := by
  have hblock : sortIncludes (block ++ rest) = sortBlock block ++ sortIncludes rest := by
    rw [sortIncludes, sortIncludesFrom_append h.isInclude, List.nil_append]
    cases rest with
    | nil => rw [sortIncludesFrom, sortIncludes_nil, List.append_nil]
    | cons line rest =>
      have hline := h.rest_begins line rfl
      rw [sortIncludesFrom_cons hline, sortIncludes_cons hline]
  cases hlast : front.getLast? with
  | none =>
    rw [List.getLast?_eq_none_iff] at hlast
    rw [hlast, sortIncludes_nil, List.nil_append, List.nil_append, hblock]
  | some line =>
    have hline := h.front_ends line hlast
    obtain ⟨front, rfl⟩ := List.getLast?_eq_some_iff.1 hlast
    rw [List.append_assoc, List.singleton_append, sortIncludes_append_cons hline, hblock,
      sortIncludes_append_cons hline, sortIncludes_nil, List.append_assoc, List.singleton_append]

/-! ## Sorting rearranges -/

theorem perm_sortIncludesFrom (block lines : List Line) :
    (sortIncludesFrom block lines).Perm (block ++ lines) := by
  induction lines generalizing block with
  | nil =>
    rw [List.append_nil]
    exact perm_sortBlock block
  | cons line lines ih =>
    cases hline : isInclude line with
    | true =>
      rw [sortIncludesFrom, hline, if_pos rfl]
      have happend : block ++ line :: lines = block ++ [line] ++ lines := by simp
      rw [happend]
      exact ih (block ++ [line])
    | false =>
      rw [sortIncludesFrom_cons hline]
      exact (perm_sortBlock block).append ((ih []).cons line)

theorem perm_sortIncludes (lines : List Line) : (sortIncludes lines).Perm lines :=
  perm_sortIncludesFrom [] lines

theorem length_sortIncludes (lines : List Line) : (sortIncludes lines).length = lines.length :=
  (perm_sortIncludes lines).length_eq

/-- A line that is no include line stays at its place. -/
theorem getElem?_sortIncludes {lines : List Line} {i : Nat} {line : Line}
    (h : lines[i]? = some line) (hline : isInclude line = false) :
    (sortIncludes lines)[i]? = some line := by
  obtain ⟨hi, rfl⟩ := List.getElem?_eq_some_iff.1 h
  have hlength : (sortIncludes (lines.take i)).length = i := by
    rw [length_sortIncludes, List.length_take_of_le hi.le]
  conv => lhs; rw [← List.take_append_drop i lines, List.drop_eq_getElem_cons hi]
  rw [sortIncludes_append_cons hline, List.getElem?_append_right hlength.le, hlength,
    Nat.sub_self]
  rfl

theorem isInclude_of_mem_sortBlock {block : List Line} (h : ∀ line ∈ block, isInclude line = true) :
    ∀ line ∈ sortBlock block, isInclude line = true :=
  fun line hline => h line ((perm_sortBlock block).mem_iff.1 hline)

theorem sortIncludes_sortIncludesFrom {block : List Line}
    (h : ∀ line ∈ block, isInclude line = true) (lines : List Line) :
    sortIncludes (sortIncludesFrom block lines) = sortIncludesFrom block lines := by
  induction lines generalizing block with
  | nil =>
    have hsorted := sortIncludesFrom_append (isInclude_of_mem_sortBlock h) [] []
    rw [List.append_nil] at hsorted
    rw [sortIncludesFrom, sortIncludes, hsorted]
    exact sortBlock_sortBlock block
  | cons line lines ih =>
    cases hline : isInclude line with
    | true =>
      rw [sortIncludesFrom, if_pos hline]
      refine ih ?_
      rw [List.forall_mem_append, List.forall_mem_singleton]
      exact ⟨h, hline⟩
    | false =>
      have hlines : sortIncludes (sortIncludes lines) = sortIncludes lines := ih (by simp)
      rw [sortIncludesFrom_cons hline, sortIncludes,
        sortIncludesFrom_append (isInclude_of_mem_sortBlock h), sortIncludesFrom_cons hline,
        hlines, List.nil_append, sortBlock_sortBlock]

/-- Sorted blocks of includes are sorted for good. -/
theorem sortIncludes_sortIncludes (lines : List Line) :
    sortIncludes (sortIncludes lines) = sortIncludes lines :=
  sortIncludes_sortIncludesFrom (by simp) lines

/-! ## Places of sorted lines -/

/-- In the sorted lines `a` may stand before `b`: it did before, if they are in no block together;
in a block its header does not come behind the other, and it did before if they have the same. -/
structure BlockBefore (flags : List Bool) (a b : Line × Nat) : Prop where
  lt : ¬SameRun flags a.2 b.2 → a.2 < b.2
  order : SameRun flags a.2 b.2 →
    (compareIncludes a.1 b.1).isLE = true ∧ ((compareIncludes b.1 a.1).isLE = true → a.2 < b.2)

/-- Lines with a place between them that is in no block keep their order. -/
theorem blockBefore_of_cut {flags : List Bool} {a b : Line × Nat} (h : a.2 < b.2) {k : Nat}
    (hk : flags[k]? ≠ some true) (ha : a.2 ≤ k) (hb : k ≤ b.2) : BlockBefore flags a b where
  lt _ := h
  order hsame := absurd (hsame.between ha hb) hk

theorem map_isInclude_block {block : List Line} (h : ∀ line ∈ block, isInclude line = true) :
    block.map isInclude = List.replicate block.length true := by
  rw [List.eq_replicate_iff, List.length_map]
  refine ⟨rfl, fun flag hflag => ?_⟩
  obtain ⟨line, hline, rfl⟩ := List.mem_map.1 hflag
  exact h line hline

/-- Sorting a block with the places of its lines. -/
theorem exists_placed_sortBlock {flags rest : List Bool} {start : Nat} {block : List Line}
    (hblock : ∀ line ∈ block, isInclude line = true)
    (hflags : flags.drop start = block.map isInclude ++ rest) :
    ∃ zs, Placed flags start block zs ∧ zs.map Prod.fst = sortBlock block ∧
      zs.Pairwise (BlockBefore flags) := by
  rw [map_isInclude_block hblock] at hflags
  have hsorted : (stableSort (fun a b : Line × Nat => (compareIncludes a.1 b.1).isLE)
        (block.zipIdx start)).map Prod.fst =
      stableSort (fun a b => (compareIncludes a b).isLE) ((block.zipIdx start).map Prod.fst) := by
    apply stableSort_map
    intro a b
    rfl
  rw [List.zipIdx_map_fst] at hsorted
  have hplaced : Placed flags start block
      (stableSort (fun a b : Line × Nat => (compareIncludes a.1 b.1).isLE) (block.zipIdx start)) :=
    .of_perm hflags (perm_stableSort _ _)
  have hstable := pairwise_stableSort_zipIdx compareIncludes_trans compareIncludes_total start block
  refine ⟨_, hplaced, hsorted, hstable.imp_of_mem fun ha hb hab => ⟨fun hnot => ?_, fun _ => hab⟩⟩
  obtain ⟨hle, hlt⟩ := hplaced.place_mem ha
  obtain ⟨hle', hlt'⟩ := hplaced.place_mem hb
  exact absurd (sameRun_of_drop hflags hle hlt hle' hlt') hnot

theorem exists_placed_sortIncludesFrom {flags : List Bool} {start : Nat} (block lines : List Line)
    (hblock : ∀ line ∈ block, isInclude line = true)
    (hflags : flags.drop start = (block ++ lines).map isInclude) :
    ∃ zs, Placed flags start (block ++ lines) zs ∧
      zs.map Prod.fst = sortIncludesFrom block lines ∧ zs.Pairwise (BlockBefore flags) := by
  induction lines generalizing start block with
  | nil =>
    rw [List.append_nil] at hflags ⊢
    exact exists_placed_sortBlock hblock (by rw [hflags, List.append_nil])
  | cons line lines ih =>
    cases hline : isInclude line with
    | true =>
      have hblock' : ∀ other ∈ block ++ [line], isInclude other = true := by
        intro other hother
        rw [List.mem_append, List.mem_singleton] at hother
        rcases hother with hother | rfl
        · exact hblock other hother
        · exact hline
      have happend : block ++ [line] ++ lines = block ++ line :: lines := by simp
      obtain ⟨zs, hplaced, hzs, hordered⟩ :=
        ih (block ++ [line]) hblock' (by rw [hflags, happend])
      rw [happend] at hplaced
      refine ⟨zs, hplaced, ?_, hordered⟩
      rw [hzs, sortIncludesFrom, hline, if_pos rfl]
    | false =>
      rw [List.map_append, List.map_cons, hline] at hflags
      obtain ⟨zs, hplaced, hzs, hordered⟩ := exists_placed_sortBlock hblock hflags
      have hcut : flags[start + block.length]? ≠ some true := by
        have hline := getElem?_of_drop (drop_of_drop_append hflags) 0
        rw [List.length_map, Nat.add_zero] at hline
        simp [hline]
      have hnext := drop_of_drop_cons (drop_of_drop_append hflags)
      rw [List.length_map] at hnext
      obtain ⟨zs', hplaced', hzs', hordered'⟩ := ih [] (by simp) hnext
      have hcons := (Placed.singleton line).append hplaced'
      refine ⟨_, hplaced.append hcons, ?_, ?_⟩
      · rw [List.map_append, List.map_append, hzs, hzs', sortIncludesFrom, hline]
        rfl
      · refine List.pairwise_append.2 ⟨hordered, ?_, fun a ha b hb => ?_⟩
        · refine List.pairwise_cons.2 ⟨fun b hb => ?_, hordered'⟩
          obtain ⟨hle, -⟩ := hplaced'.place_mem hb
          exact blockBefore_of_cut hle hcut le_rfl (Nat.le_of_succ_le hle)
        · obtain ⟨-, hlt⟩ := hplaced.place_mem ha
          obtain ⟨hle, -⟩ := hcons.place_mem hb
          exact blockBefore_of_cut (lt_of_lt_of_le hlt hle) hcut hlt.le hle

theorem head?_of_isInclude {line : Line} (h : isInclude line = true) : line.head? = some '#' := by
  obtain ⟨rest, rfl⟩ := List.isPrefixOf_iff_prefix.1 h
  rfl

theorem isInclude_of_flag {lines : List Line} {i : Fin lines.length}
    (h : (lines.map isInclude)[i.val]? = some true) : isInclude (lines.get i) = true := by
  rw [List.getElem?_map, List.getElem?_eq_getElem i.isLt] at h
  exact Option.some.inj h

theorem isInclude_of_sameRun {lines : List Line} {i : Fin lines.length} {j : Nat}
    (h : SameRun (lines.map isInclude) i j) : isInclude (lines.get i) = true :=
  isInclude_of_flag h.left

/-- Where sorting puts each line: no line leaves its block, and in a block a line goes behind those
that it may not precede. -/
theorem exists_ordered_sortIncludes (lines : List Line) :
    ∃ σ : Fin lines.length ≃ Fin (sortIncludes lines).length,
      (∀ i, (sortIncludes lines).get (σ i) = lines.get i) ∧
      (∀ i, (σ i).val = i ∨ SameRun (lines.map isInclude) i (σ i)) ∧
      ∀ i j, σ i < σ j →
        BlockBefore (lines.map isInclude) (lines.get i, i.val) (lines.get j, j.val) := by
  have hflags : (lines.map isInclude).drop 0 = ([] ++ lines).map isInclude := rfl
  obtain ⟨zs, hplaced, hzs, hordered⟩ := exists_placed_sortIncludesFrom [] lines (by simp) hflags
  rw [List.nil_append] at hplaced
  have hshown : List.Forall₂ (fun (z : Line × Nat) (y : Line) => y = z.1) zs
      (sortIncludes lines) := by
    rw [sortIncludes, ← hzs, List.forall₂_map_right_iff, List.forall₂_same]
    intro z _
    rfl
  obtain ⟨σ, hσ, hget, hmoves⟩ := hplaced.exists_equiv hshown
  refine ⟨σ, hget, hmoves, fun i j hij => ?_⟩
  obtain ⟨hi, hgeti⟩ := List.getElem?_eq_some_iff.1 (hσ i)
  obtain ⟨hj, hgetj⟩ := List.getElem?_eq_some_iff.1 (hσ j)
  have hbefore := List.pairwise_iff_getElem.1 hordered (σ i) (σ j) hi hj hij
  rwa [hgeti, hgetj] at hbefore

/-- Include lines stay include lines where they stand. -/
theorem map_isInclude_sortIncludes (lines : List Line) :
    (sortIncludes lines).map isInclude = lines.map isInclude := by
  obtain ⟨σ, hget, hmoves, -⟩ := exists_ordered_sortIncludes lines
  apply List.ext_getElem
  · rw [List.length_map, List.length_map, length_sortIncludes]
  · intro k hk hk'
    rw [List.length_map] at hk hk'
    obtain ⟨i, hi⟩ := σ.surjective ⟨k, hk⟩
    have hki : (σ i).val = k := congrArg Fin.val hi
    subst hki
    have hline : (sortIncludes lines)[(σ i).val] = lines.get i := hget i
    rw [List.getElem_map, List.getElem_map, hline]
    rcases hmoves i with hplace | hsame
    · simp only [hplace, List.get_eq_getElem]
    · rw [isInclude_of_sameRun hsame]
      exact (isInclude_of_sameRun (i := ⟨(σ i).val, hk'⟩) hsame.symm).symm

/-- Sorting the include blocks of a text is a bijection of places that leaves the blocks where they
are. -/
theorem exists_equiv_sortIncludes (lines : List Line) :
    ∃ σ : Fin lines.length ≃ Fin (sortIncludes lines).length,
      (∀ i, (sortIncludes lines).get (σ i) = lines.get i) ∧
      (∀ i, (σ i).val = i ∨ SameRun (lines.map isInclude) i (σ i)) ∧
      (sortIncludes lines).map isInclude = lines.map isInclude := by
  obtain ⟨σ, hget, hmoves, -⟩ := exists_ordered_sortIncludes lines
  exact ⟨σ, hget, hmoves, map_isInclude_sortIncludes lines⟩

/-! ## Blocks and nothing else -/

theorem IsBlock.take_drop_sortIncludes {front block rest : List Line}
    (h : IsBlock front block rest) :
    ((sortIncludes (front ++ (block ++ rest))).drop front.length).take block.length =
      sortBlock block := by
  rw [h.sortIncludes_eq, List.drop_left' (length_sortIncludes front),
    List.take_left' (perm_sortBlock block).length_eq]

/-- Between the same lines two blocks are given out alike exactly if they are sorted alike. -/
theorem IsBlock.sortIncludes_eq_iff {front block block' rest : List Line}
    (h : IsBlock front block rest) (h' : IsBlock front block' rest) :
    sortIncludes (front ++ (block ++ rest)) = sortIncludes (front ++ (block' ++ rest)) ↔
      ∀ name, block.filter (fun line => header line = name) =
        block'.filter (fun line => header line = name) := by
  rw [h.sortIncludes_eq, h'.sortIncludes_eq, List.append_cancel_left_eq,
    List.append_cancel_right_eq, sortBlock_eq_iff_filter]

/-- Sorting replaces every block of includes by its stable sort and leaves all other lines where
they are. It is a rearrangement, doing it again changes nothing, and of a block it depends on no
more than the order of the lines of each header. -/
theorem sortIncludes_sorts_blocks :
    (∀ (lines : List Line) (i : Nat) (line : Line), lines[i]? = some line →
      isInclude line = false → (sortIncludes lines)[i]? = some line) ∧
    (∀ front block rest : List Line, IsBlock front block rest →
      ∃ σ, SortedBy (fun a b => (compareIncludes a b).isLE) block
        (((sortIncludes (front ++ (block ++ rest))).drop front.length).take block.length) σ) ∧
    (∀ lines : List Line, (sortIncludes lines).Perm lines) ∧
    (∀ lines : List Line, sortIncludes (sortIncludes lines) = sortIncludes lines) ∧
    ∀ front block block' rest : List Line, IsBlock front block rest → IsBlock front block' rest →
      (sortIncludes (front ++ (block ++ rest)) = sortIncludes (front ++ (block' ++ rest)) ↔
        ∀ name, block.filter (fun line => header line = name) =
          block'.filter (fun line => header line = name)) := by
  refine ⟨fun _ _ _ => getElem?_sortIncludes, fun front block rest h => ?_, perm_sortIncludes,
    sortIncludes_sortIncludes, fun _ _ _ _ => IsBlock.sortIncludes_eq_iff⟩
  rw [h.take_drop_sortIncludes]
  exact exists_sortedBy_stableSort compareIncludes_trans compareIncludes_total block

end Stencil.Source
