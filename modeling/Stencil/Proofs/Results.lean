/-!
# Results and faults

What goes on with a result stops at the first fault, be it a reader or something that also changes a
state. A list is read if each of its items is.
-/

namespace Stencil

variable {ε : Type u} {α β : Type v}

theorem bind_eq_ok_iff {x : Except ε α} {f : α → Except ε β} {b : β} :
    (x >>= f) = .ok b ↔ ∃ a, x = .ok a ∧ f a = .ok b := by
  cases x with
  | error fault =>
    constructor
    · intro h
      cases h
    · rintro ⟨a, h, -⟩
      cases h
  | ok a =>
    constructor
    · intro h
      exact ⟨a, rfl, h⟩
    · rintro ⟨a, h, hf⟩
      cases h
      exact hf

theorem bind_eq_error_iff {x : Except ε α} {f : α → Except ε β} {fault : ε} :
    (x >>= f) = .error fault ↔ x = .error fault ∨ ∃ a, x = .ok a ∧ f a = .error fault := by
  cases x with
  | error fault' => simp [bind, Except.bind]
  | ok a => simp [bind, Except.bind]

theorem bind_pure_eq_error_iff {x : Except ε α} {f : α → β} {fault : ε} :
    (x >>= fun a => pure (f a)) = .error fault ↔ x = .error fault := by
  cases x <;> simp [bind, Except.bind, pure, Except.pure]

theorem map_eq_ok_iff {x : Except ε α} {f : α → β} {b : β} :
    x.map f = .ok b ↔ ∃ a, x = .ok a ∧ f a = b := by
  cases x <;> simp [Except.map]

theorem map_eq_error_iff {x : Except ε α} {f : α → β} {fault : ε} :
    x.map f = .error fault ↔ x = .error fault := by
  cases x <;> simp [Except.map]

theorem ite_throw_eq_ok_iff {p : Prop} [Decidable p] {fault : ε} {x : Except ε α} {a : α} :
    (if p then throw fault else x) = .ok a ↔ ¬ p ∧ x = .ok a := by
  by_cases h : p <;> simp [h, throw, throwThe, MonadExceptOf.throw]

theorem bind_run {ε σ α β : Type u} {action : ExceptT ε (StateM σ) α}
    {next : α → ExceptT ε (StateM σ) β} {state : σ} :
    (action >>= next).run.run state =
      match action.run.run state with
      | (.ok value, after) => (next value).run.run after
      | (.error fault, after) => (.error fault, after) := by
  show (ExceptT.bind action next).run.run state = _
  simp only [ExceptT.bind, ExceptT.mk, ExceptT.run, bind, StateT.bind, StateT.run]
  rcases action state with ⟨_ | _, after⟩ <;> rfl

theorem get_run {ε σ α : Type u} {next : σ → ExceptT ε (StateM σ) α} {state : σ} :
    (get >>= next).run.run state = (next state).run.run state := by
  rw [bind_run]
  rfl

theorem tryCatch_run {ε σ α : Type u} {action : ExceptT ε (StateM σ) α}
    {handler : ε → ExceptT ε (StateM σ) α} {state : σ} :
    (tryCatch action handler).run.run state =
      match action.run.run state with
      | (.ok value, after) => (.ok value, after)
      | (.error fault, after) => (handler fault).run.run after := by
  show (ExceptT.tryCatch action handler).run.run state = _
  simp only [ExceptT.tryCatch, ExceptT.mk, ExceptT.run, bind, StateT.bind, StateT.run]
  rcases action state with ⟨_ | _, after⟩ <;> rfl

theorem guard_run {ε σ α : Type u} {p : Prop} [Decidable p] {fault : ε}
    {next : PUnit → ExceptT ε (StateM σ) α} {state : σ} :
    (if p then throw fault >>= next else next ⟨⟩).run.run state =
      if p then (.error fault, state) else (next ⟨⟩).run.run state := by
  split <;> rfl

theorem lift_run {ε σ α β : Type u} {x : Except ε α} {next : α → ExceptT ε (StateM σ) β}
    {state : σ} :
    ((liftM x : ExceptT ε (StateM σ) α) >>= next).run.run state =
      match x with
      | .ok value => (next value).run.run state
      | .error fault => (.error fault, state) := by
  cases x <;> rfl

theorem mapM_eq_some_iff {f : α → Option β} {xs : List α} {ys : List β} :
    xs.mapM f = some ys ↔ xs.map f = ys.map some := by
  induction xs generalizing ys with
  | nil => cases ys <;> simp
  | cons x xs ih =>
    rw [List.mapM_cons]
    constructor
    · intro h
      obtain ⟨y, hy, h⟩ := Option.bind_eq_some_iff.1 h
      obtain ⟨zs, hzs, h⟩ := Option.bind_eq_some_iff.1 h
      cases h
      rw [List.map_cons, hy, ih.1 hzs, List.map_cons]
    · intro h
      cases ys with
      | nil => cases h
      | cons y ys =>
        obtain ⟨hy, hys⟩ := List.cons.inj h
        rw [hy, ih.2 hys]
        rfl

theorem exists_mapM_eq_some_iff {f : α → Option β} {xs : List α} :
    (∃ ys, xs.mapM f = some ys) ↔ ∀ x ∈ xs, (f x).isSome := by
  constructor
  · rintro ⟨ys, h⟩ x hx
    have hmem : f x ∈ ys.map some := by
      rw [← mapM_eq_some_iff.1 h]
      exact List.mem_map_of_mem hx
    obtain ⟨y, -, hy⟩ := List.mem_map.1 hmem
    rw [← hy]
    rfl
  · intro h
    induction xs with
    | nil => exact ⟨[], rfl⟩
    | cons x xs ih =>
      obtain ⟨y, hy⟩ := Option.isSome_iff_exists.1 (h x List.mem_cons_self)
      obtain ⟨ys, hys⟩ := ih fun x hx => h x (List.mem_cons_of_mem _ hx)
      refine ⟨y :: ys, mapM_eq_some_iff.2 ?_⟩
      rw [List.map_cons, hy, mapM_eq_some_iff.1 hys, List.map_cons]

theorem mem_iff_of_mapM {f : α → Option β} {xs : List α} {ys : List β} (h : xs.mapM f = some ys)
    {y : β} : y ∈ ys ↔ ∃ x ∈ xs, f x = some y := by
  rw [← List.mem_map, mapM_eq_some_iff.1 h, List.mem_map]
  constructor
  · intro hy
    exact ⟨y, hy, rfl⟩
  · rintro ⟨y', hy', heq⟩
    cases heq
    exact hy'

end Stencil
