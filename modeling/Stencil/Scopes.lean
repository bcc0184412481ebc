import Stencil.Entries
import Stencil.Value

/-!
# Scopes

Names have their values in scopes, which lie one above the other. A name means what the innermost
scope that binds it says. There is always a base scope; it stays when the scopes above it go.

Main statements: a name that is bound means its new value (`get?_set_self`), other names mean what
they did (`get?_set_of_ne`), popping undoes pushing (`pop_push`), and a name means the same in the
one scope that all are flattened to (`find?_flatten`).
-/

namespace Stencil

/-- Names with their values, in the order in which they were first bound. -/
abbrev Scope := Entries String Value

/-- Scopes that lie one above the other. -/
structure Scopes where
  /-- The scope below all others. -/
  base : Scope
  /-- The scopes above it, the innermost first. -/
  inner : List Scope

namespace Scopes

/-- One scope, which holds nothing. -/
def empty : Scopes := ⟨.empty, []⟩

/-- One scope. -/
def ofScope (base : Scope) : Scopes := ⟨base, []⟩

/-- The number of scopes. -/
def depth (scopes : Scopes) : Nat :=
  scopes.inner.length + 1

/-- Binds a name in the innermost scope. -/
def set (scopes : Scopes) (name : String) (value : Value) : Scopes :=
  match scopes.inner with
  | [] => { scopes with base := scopes.base.insert name value }
  | scope :: outer => { scopes with inner := scope.insert name value :: outer }

/-- The value of a name. -/
def get? (scopes : Scopes) (name : String) : Option Value :=
  (scopes.inner.findSome? fun scope => scope.find? name).or (scopes.base.find? name)

/-- Binds the names that have no value to null, in the innermost scope. -/
def declare (scopes : Scopes) (names : List String) : Scopes :=
  names.foldl
    (fun scopes name => if (scopes.get? name).isNone then scopes.set name .null else scopes) scopes

/-- Puts a scope that holds nothing above the others. -/
def push (scopes : Scopes) : Scopes :=
  { scopes with inner := .empty :: scopes.inner }

/-- Takes the innermost scope away. The base scope stays. -/
def pop (scopes : Scopes) : Scopes :=
  { scopes with inner := scopes.inner.tail }

/-- Does something within a scope of its own, which is gone afterwards. -/
def within (scopes : Scopes) (action : Scopes → α × Scopes) : α × Scopes :=
  let (result, after) := action scopes.push
  (result, after.pop)

/-- The names that have a value, with what they mean, in one scope. -/
def flatten (scopes : Scopes) : Scope :=
  scopes.inner.foldr (fun scope flat => flat.insertAll scope.toList) scopes.base

@[simp] theorem get?_set_self (scopes : Scopes) (name : String) (value : Value) :
    (scopes.set name value).get? name = some value := by
  unfold set get?
  split <;> simp_all

theorem get?_set_of_ne (scopes : Scopes) {name other : String} (value : Value)
    (h : other ≠ name) : (scopes.set name value).get? other = scopes.get? other := by
  unfold set get?
  split
  · next hinner => simp [hinner, Entries.find?_insert_of_ne _ _ h]
  · next hinner => simp [hinner, List.findSome?_cons, Entries.find?_insert_of_ne _ _ h]

/-- A name that has a value keeps it; of the others those that are declared have null. -/
theorem get?_declare (scopes : Scopes) (names : List String) (name : String) :
    (scopes.declare names).get? name =
      (scopes.get? name).or (if name ∈ names then some .null else none) := by
  unfold declare
  induction names generalizing scopes with
  | nil => simp
  | cons first rest ih =>
    rw [List.foldl_cons, ih]
    by_cases hfirst : name = first
    · subst hfirst
      cases h : scopes.get? name <;> simp [h]
    · cases h : scopes.get? first <;> simp [hfirst, get?_set_of_ne _ _ hfirst]

@[simp] theorem pop_push (scopes : Scopes) : scopes.push.pop = scopes := rfl

/-- Binding a name above the base scope changes nothing below the innermost scope. -/
theorem pop_set {scopes : Scopes} (name : String) (value : Value) (h : scopes.inner ≠ []) :
    (scopes.set name value).pop = scopes.pop := by
  unfold set
  split
  · next hinner => exact absurd hinner h
  · next hinner => simp [pop, hinner]

theorem inner_set_ne_nil {scopes : Scopes} (name : String) (value : Value)
    (h : scopes.inner ≠ []) : (scopes.set name value).inner ≠ [] := by
  unfold set
  split
  · next hinner => exact absurd hinner h
  · simp

@[simp] theorem pop_set_push (scopes : Scopes) (name : String) (value : Value) :
    (scopes.push.set name value).pop = scopes := by
  rw [pop_set _ _ (by simp [push]), pop_push]

theorem pop_declare {scopes : Scopes} (names : List String) (h : scopes.inner ≠ []) :
    (scopes.declare names).pop = scopes.pop := by
  unfold declare
  induction names generalizing scopes with
  | nil => rfl
  | cons first rest ih =>
    rw [List.foldl_cons]
    split
    · rw [ih (inner_set_ne_nil _ _ h), pop_set _ _ h]
    · exact ih h

@[simp] theorem pop_declare_push (scopes : Scopes) (names : List String) :
    (scopes.push.declare names).pop = scopes := by
  rw [pop_declare names (by simp [push]), pop_push]

@[simp] theorem get?_push (scopes : Scopes) (name : String) :
    scopes.push.get? name = scopes.get? name := by
  simp [get?, push, List.findSome?_cons]

theorem get?_cons (base scope : Scope) (inner : List Scope) (name : String) :
    get? ⟨base, scope :: inner⟩ name = (scope.find? name).or (get? ⟨base, inner⟩ name) := by
  unfold get?
  rw [List.findSome?_cons]
  cases scope.find? name <;> rfl

@[simp] theorem find?_flatten (scopes : Scopes) (name : String) :
    scopes.flatten.find? name = scopes.get? name := by
  obtain ⟨base, inner⟩ := scopes
  induction inner with
  | nil => rfl
  | cons scope inner ih =>
    rw [get?_cons, ← ih]
    exact Entries.find?_insertAll _ scope.distinct name

/-- Names that are bound one after the other in a new scope make up this scope. -/
theorem foldl_set_push (scopes : Scopes) (scope : Scope) :
    scope.toList.foldl (fun scopes entry => scopes.set entry.1 entry.2) scopes.push =
      { scopes with inner := scope :: scopes.inner } := by
  have hset : ∀ (pairs : List (String × Value)) (innermost : Scope),
      pairs.foldl (fun scopes entry => scopes.set entry.1 entry.2)
          { scopes with inner := innermost :: scopes.inner } =
        { scopes with inner := innermost.insertAll pairs :: scopes.inner } := by
    intro pairs
    induction pairs with
    | nil => exact fun _ => rfl
    | cons pair rest ih => exact fun innermost => ih (innermost.insert pair.1 pair.2)
  have hscope : Entries.insertAll .empty scope.toList = scope := Entries.ofList_toList scope
  exact (hset scope.toList .empty).trans (by rw [hscope])

end Scopes

end Stencil
