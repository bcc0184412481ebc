import Mathlib.Data.List.Forall2
import Stencil.Loading
import Stencil.Proofs.Session

/-!
# Loading what files are made from

Loading changes no file. It succeeds exactly if the project and the context, where they are given,
are files that can be read, each definition is one, and the operations can be read and make a set;
and what it gives then is fixed by their texts (`Generation.gives_load`).
-/

namespace Stencil

namespace Context

/-- The definition gives the name a text: before the first equals sign stands the name, perhaps with
blanks around it, and all that is behind this sign is the text. -/
def Defines (definition name text : String) : Prop :=
  ∃ key, definition.toList = key ++ '=' :: text.toList ∧ '=' ∉ key ∧
    Text.isBlankText key = false ∧ Text.trim key = name.toList

/-- The text is no definition: it has no equals sign, or nothing but blanks before the first. -/
def Malformed (definition : String) : Prop :=
  '=' ∉ definition.toList ∨
    ∃ key text, definition.toList = key ++ '=' :: text ∧ '=' ∉ key ∧ Text.isBlankText key = true

section definitions

variable {definition name text : String}

theorem definition?_eq_some_iff :
    definition? definition = some (name, text) ↔ Defines definition name text := by
  unfold definition?
  constructor
  · intro h
    split at h
    · next key value hsplit =>
      obtain ⟨hdefinition, hkey⟩ := splitAtEquals?_eq_some.1 hsplit
      split at h
      · cases h
      · next hblank =>
        cases h
        exact ⟨key, by simpa using hdefinition, hkey, by simpa using hblank, by simp⟩
    · cases h
  · rintro ⟨key, hdefinition, hkey, hblank, hname⟩
    rw [splitAtEquals?_eq_some.2 ⟨hdefinition, hkey⟩]
    simp [hblank, hname]

theorem Defines.unique {name' text' : String} (h : Defines definition name text)
    (h' : Defines definition name' text') : name = name' ∧ text = text' := by
  rw [← definition?_eq_some_iff] at h h'
  rw [h] at h'
  cases h'
  exact ⟨rfl, rfl⟩

/-- A text is a definition of one name, or it is none. -/
theorem malformed_iff : Malformed definition ↔ ∀ name text, ¬ Defines definition name text := by
  constructor
  · rintro hmalformed name text ⟨key, hdefinition, hkey, hblank, -⟩
    rcases hmalformed with hnone | ⟨key', text', hdefinition', hkey', hblank'⟩
    · exact hnone (by simp [hdefinition])
    · have hsplit := splitAtEquals?_eq_some.2 ⟨hdefinition, hkey⟩
      rw [splitAtEquals?_eq_some.2 ⟨hdefinition', hkey'⟩] at hsplit
      cases hsplit
      rw [hblank] at hblank'
      cases hblank'
  · intro h
    by_cases hequals : '=' ∈ definition.toList
    · obtain ⟨key, text, hdefinition, hkey⟩ := List.eq_append_cons_of_mem hequals
      cases hblank : Text.isBlankText key with
      | true => exact .inr ⟨key, text, hdefinition, hkey, hblank⟩
      | false =>
        exact absurd ⟨key, by simpa using hdefinition, hkey, hblank, by simp⟩
          (h (.ofList (Text.trim key)) (.ofList text))
    · exact .inl hequals

end definitions

/-- Definitions are read as the texts that they give to names, in order. -/
theorem readDefinitions_eq_ok_iff {definitions : List String} {values : List (String × Value)} :
    readDefinitions definitions = .ok values ↔
      List.Forall₂ (fun definition value => ∃ text, Defines definition value.1 text ∧
        value.2 = .string text) definitions values := by
  induction definitions generalizing values with
  | nil => simp [readDefinitions, eq_comm]
  | cons definition definitions ih =>
    rw [readDefinitions, List.forall₂_cons_left_iff]
    cases hdefinition : definition? definition with
    | none =>
      constructor
      · intro h
        cases h
      · rintro ⟨value, -, ⟨text, hdefines, -⟩, -⟩
        rw [definition?_eq_some_iff.2 hdefines] at hdefinition
        cases hdefinition
    | some entry =>
      obtain ⟨name, text⟩ := entry
      have hdefines := definition?_eq_some_iff.1 hdefinition
      simp only [bind_eq_ok_iff, pure, Except.pure, Except.ok.injEq, ih]
      constructor
      · rintro ⟨rest, hrest, rfl⟩
        exact ⟨(name, .string text), rest, ⟨text, hdefines, rfl⟩, hrest, rfl⟩
      · rintro ⟨⟨name', value⟩, rest, ⟨text', hdefines', hvalue⟩, hrest, rfl⟩
        obtain ⟨rfl, rfl⟩ := hdefines.unique hdefines'
        cases hvalue
        exact ⟨rest, hrest, rfl⟩

/-- All definitions are read, or none: one text that is no definition is enough, wherever it is. -/
theorem exists_readDefinitions_eq_ok_iff {definitions : List String} :
    (∃ values, readDefinitions definitions = .ok values) ↔
      ∀ definition ∈ definitions, ∃ name text, Defines definition name text := by
  simp only [readDefinitions_eq_ok_iff]
  induction definitions with
  | nil => simp
  | cons definition definitions ih =>
    rw [List.forall_mem_cons, ← ih]
    constructor
    · rintro ⟨values, hvalues⟩
      obtain ⟨value, rest, ⟨text, hdefines, -⟩, hrest, -⟩ := List.forall₂_cons_left_iff.1 hvalues
      exact ⟨⟨value.1, text, hdefines⟩, rest, hrest⟩
    · rintro ⟨⟨name, text, hdefines⟩, rest, hrest⟩
      exact ⟨(name, .string text) :: rest, .cons ⟨text, hdefines, rfl⟩ hrest⟩

end Context

namespace Task

variable {ε ε' α β : Type} {store : Store}

/-- The task leaves the store as it is, and the values it may give are those with the property. If
there are none, it fails. -/
def Gives (store : Store) (task : Task ε α) (property : α → Prop) : Prop :=
  ∀ log, ∃ result after, task.run.run ⟨store, log⟩ = (result, ⟨store, after⟩) ∧
    ∀ value, result = .ok value ↔ property value

namespace Gives

theorem congr {task : Task ε α} {property property' : α → Prop} (h : Gives store task property)
    (hiff : ∀ value, property value ↔ property' value) : Gives store task property' := by
  intro log
  obtain ⟨result, after, hrun, hresult⟩ := h log
  exact ⟨result, after, hrun, fun value => (hresult value).trans (hiff value)⟩

theorem pure (value : α) : Gives store (pure value : Task ε α) (· = value) := by
  intro log
  refine ⟨.ok value, log, rfl, fun other => ?_⟩
  rw [Except.ok.injEq]
  exact eq_comm

theorem throw (fault : ε) : Gives store (throw fault : Task ε α) fun _ => False :=
  fun log => ⟨.error fault, log, rfl, fun _ => ⟨nofun, nofun⟩⟩

theorem tell (level : Log.Level) (channel : Log.Channel) (text : String) :
    Gives store (tell level channel text : Task ε Unit) fun _ => True :=
  fun _ => ⟨.ok (), _, rfl, fun _ => ⟨fun _ => trivial, fun _ => rfl⟩⟩

theorem ofExcept (result : Except ε α) :
    Gives store (liftM result : Task ε α) (result = .ok ·) := by
  intro log
  refine ⟨result, log, ?_, fun _ => .rfl⟩
  cases result <;> rfl

theorem adapt {task : Task ε α} {property : α → Prop} (h : Gives store task property)
    (change : ε → ε') : Gives store (task.adapt change) property := by
  intro log
  obtain ⟨result, after, hrun, hresult⟩ := h log
  refine ⟨result.mapError change, after, ?_, fun value => ?_⟩
  · rw [adapt_run, hrun]
  · rw [← hresult value]
    cases result <;> simp [Except.mapError]

theorem bind {task : Task ε α} {next : α → Task ε β} {first : α → Prop} {second : α → β → Prop}
    (htask : Gives store task first) (hnext : ∀ value, first value →
      Gives store (next value) (second value)) :
    Gives store (task >>= next) fun final => ∃ value, first value ∧ second value final := by
  intro log
  obtain ⟨result, between, hrun, hresult⟩ := htask log
  cases result with
  | error fault =>
    refine ⟨.error fault, between, ?_, fun final => ⟨nofun, ?_⟩⟩
    · rw [bind_run, hrun]
    · rintro ⟨value, hvalue, -⟩
      cases (hresult value).2 hvalue
  | ok value =>
    have hvalue := (hresult value).1 rfl
    obtain ⟨result', after, hrun', hresult'⟩ := hnext value hvalue between
    refine ⟨result', after, ?_, fun final => ?_⟩
    · rw [bind_run, hrun]
      exact hrun'
    · rw [hresult']
      constructor
      · exact fun h => ⟨value, hvalue, h⟩
      · rintro ⟨other, hother, h⟩
        cases (hresult other).2 hother
        exact h

/-- What follows does not depend on what a task gives that only tells something. -/
theorem after {task : Task ε Unit} {next : Task ε β} {property : β → Prop}
    (htask : Gives store task fun _ => True) (hnext : Gives store next property) :
    Gives store (task >>= fun _ => next) property :=
  (htask.bind fun _ _ => hnext).congr fun _ => ⟨fun ⟨_, _, h⟩ => h, fun h => ⟨(), trivial, h⟩⟩

theorem store_bind {next : Store → Task ε β} {property : β → Prop}
    (h : Gives store (next store) property) : Gives store (Task.store >>= next) property := by
  intro log
  rw [store_run]
  exact h log

end Gives

theorem gives_readFile (path : Path) :
    Gives store (readFile path) (store.read path = .ok ·) := by
  refine .store_bind ?_
  cases store.read path with
  | ok text => exact (Gives.pure text).congr fun _ => by simp [eq_comm]
  | error fault => exact (Gives.throw _).congr fun _ => by simp

theorem gives_readRequired (path : Path) {before : Task Failure Unit}
    (h : Gives store before fun _ => True) :
    Gives store (readRequired path before) fun text =>
      store.hasFile path = true ∧ store.read path = .ok text := by
  refine .store_bind ?_
  cases hfile : store.hasFile path with
  | false => exact (Gives.throw _).congr fun _ => by simp
  | true => exact (h.after (gives_readFile path)).congr fun _ => by simp

end Task

open Stencil.Task (Gives gives_readFile gives_readRequired)

variable {store : Store}

theorem Project.gives_load (path : Path) :
    Gives store (Project.load path) fun project =>
      ∃ text, (store.hasFile path = true ∧ store.read path = .ok text) ∧
        Project.ofText? text = some project := by
  refine (gives_readRequired path (.tell _ _ _)).bind fun text _ => ?_
  cases Project.ofText? text with
  | none => exact (Gives.throw _).congr fun _ => by simp
  | some project => exact (Gives.pure project).congr fun _ => by simp [eq_comm]

theorem Context.gives_load (path : Path) :
    Gives store (Context.load path) fun context =>
      ∃ text, (store.hasFile path = true ∧ store.read path = .ok text) ∧
        Context.ofText? text = some context := by
  refine (gives_readRequired path ((Gives.pure ()).congr fun _ => by simp)).bind fun text _ => ?_
  cases Context.ofText? text with
  | none => exact (Gives.throw _).congr fun _ => by simp
  | some context => exact (Gives.pure context).congr fun _ => by simp [eq_comm]

theorem OperationSet.gives_ofText (text : String) :
    Gives store (OperationSet.ofText text) (OperationSet.read text = .ok ·) := by
  unfold OperationSet.ofText
  cases OperationSet.read text with
  | ok set => exact ((Gives.tell _ _ _).after (.pure set)).congr fun _ => by simp [eq_comm]
  | error fault => exact (Gives.throw _).congr fun _ => by simp

theorem OperationSet.gives_load (path : Path) :
    Gives store (OperationSet.load path) fun set =>
      ∃ text, store.read path = .ok text ∧ OperationSet.read text = .ok set :=
  ((Gives.tell _ _ _).after (gives_readFile path)).bind fun text _ => gives_ofText text

namespace Generation

/-- What is loaded from the file at a path: what its text says. Where no path is given, it is the
default. -/
inductive Loads {α : Type} (store : Store) (value? : String → Option α) (default : α) :
    Option Path → α → Prop where
  | file {path text value} : store.hasFile path = true → store.read path = .ok text →
      value? text = some value → Loads store value? default (some path) value
  | none : Loads store value? default none default

/-- What goes on with what is loaded, be a path given or not. -/
theorem gives_loads {ε α β : Type} {path? : Option Path} {task : Path → Task ε α} {default : α}
    {value? : String → Option α} {next : α → Task ε β} {property : α → β → Prop}
    (htask : ∀ path, Gives store (task path) fun value =>
      ∃ text, (store.hasFile path = true ∧ store.read path = .ok text) ∧
        value? text = some value)
    (hnext : ∀ value, Gives store (next value) (property value)) :
    Gives store
      (match path? with
        | some path => task path >>= next
        | none => pure default >>= next)
      fun final => ∃ value, Loads store value? default path? value ∧ property value final := by
  cases path? with
  | none =>
    refine ((Gives.pure default).bind fun value _ => hnext value).congr fun final => ⟨?_, ?_⟩
    · rintro ⟨_, rfl, hfinal⟩
      exact ⟨_, .none, hfinal⟩
    · rintro ⟨_, ⟨⟩, hfinal⟩
      exact ⟨_, rfl, hfinal⟩
  | some path =>
    refine ((htask path).bind fun value _ => hnext value).congr fun final => ⟨?_, ?_⟩
    · rintro ⟨value, ⟨text, ⟨hfile, hread⟩, hvalue⟩, hfinal⟩
      exact ⟨value, .file hfile hread hvalue, hfinal⟩
    · rintro ⟨value, ⟨hfile, hread, hvalue⟩, hfinal⟩
      exact ⟨value, ⟨_, ⟨hfile, hread⟩, hvalue⟩, hfinal⟩

/-- What loading gives. -/
theorem gives_load (sources : Sources) :
    Gives store (load sources) fun generation =>
      ∃ project, Loads store Project.ofText? .empty sources.project project ∧
      ∃ context, Loads store Context.ofText? .empty sources.context context ∧
      ∃ definitions, Context.readDefinitions sources.definitions = .ok definitions ∧
      ∃ set, (∃ text, store.read sources.operations = .ok text ∧
          OperationSet.read text = .ok set) ∧
        generation = withValues ⟨set, project, sources.templates, .empty, sources.formats⟩
          (context.insertAll definitions) := by
  refine gives_loads (fun path => (Project.gives_load path).adapt _) fun project => ?_
  refine gives_loads (fun path => (Context.gives_load path).adapt _) fun context => ?_
  refine ((Gives.ofExcept _).adapt _).bind fun definitions _ => ?_
  refine ((OperationSet.gives_load _).adapt _).bind fun set _ => ?_
  exact (Gives.tell _ _ _).after (.pure _)

end Generation

end Stencil
