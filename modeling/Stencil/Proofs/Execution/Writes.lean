import Stencil.Proofs.Execution.Trace

/-!
# What a run writes

A run writes the texts that its templates render, in the order in which they are rendered, all to
its target. The first replaces what the target held and the others are put behind it, however deeply
the templates lie and also if the run fails after some of them; what other files hold stays
(`runMain_writes`).
-/

namespace Stencil

namespace Entries

theorem filter_put {κ : Type u} {α : Type v} [DecidableEq κ] (key : κ) (value : α)
    (pairs : List (κ × α)) :
    ((put key value pairs).filter fun pair => pair.1 ≠ key) =
      pairs.filter fun pair => pair.1 ≠ key := by
  induction pairs with
  | nil => simp [put]
  | cons pair rest ih =>
    obtain ⟨k, a⟩ := pair
    by_cases hk : k = key
    · simp [put, hk]
    · simpa [put, hk] using ih

end Entries

namespace Output

/-- The files other than that of the path. -/
def others (output : Output) (path : Path) : List (Path.Route × File) :=
  output.files.toList.filter fun entry => entry.1 ≠ path.key

@[simp] theorem others_write (output : Output) (path : Path) (text : String) (mode : Mode) :
    (output.write path text mode).others path = output.others path :=
  Entries.filter_put ..

/-- The writes that put texts one after the other, the first as the mode says. -/
def writesOf (path : Path) (mode : Mode) : List String → List (Path × Mode)
  | [] => []
  | _ :: rest => (path, mode) :: rest.map fun _ => (path, .append)

end Output

namespace Execution

namespace Event

/-- The texts that are written, in order. -/
def texts : List Event → List String
  | [] => []
  | .told _ :: events => texts events
  | .wrote text :: events => text :: texts events

theorem text_eq_join (events : List Event) : text events = String.join (texts events) := by
  induction events with
  | nil => rfl
  | cons event events ih =>
    cases event with
    | told record => exact ih
    | wrote written => rw [text, ih, texts, Outcome.join_cons]

theorem writes_eq_false_iff (events : List Event) : writes events = false ↔ texts events = [] := by
  induction events with
  | nil => simp [writes, texts]
  | cons event events ih =>
    cases event with
    | told record => exact ih
    | wrote written => simp [writes, texts]

end Event

/-- The texts that were written, in order. -/
def Trace.texts (trace : Trace) : List String :=
  Event.texts trace.events

namespace State

variable {target : Path}

theorem others_afterAll (state : State) (events : List Event) :
    (state.afterAll target events).output.others target = state.output.others target := by
  induction events generalizing state with
  | nil => rfl
  | cons event events ih =>
    rw [afterAll_cons, ih]
    cases event with
    | told record => rfl
    | wrote text => exact Output.others_write ..

theorem writes_afterAll (state : State) (events : List Event) :
    (state.afterAll target events).output.writes =
      state.output.writes ++ Output.writesOf target state.mode (Event.texts events) := by
  induction events generalizing state with
  | nil => simp [Event.texts, Output.writesOf]
  | cons event events ih =>
    rw [afterAll_cons, ih]
    cases event with
    | told record => rfl
    | wrote text =>
      have hmode : (state.after target (.wrote text)).mode = .append := rfl
      have hwrites : (state.after target (.wrote text)).output.writes =
          state.output.writes ++ [(target, state.mode)] := rfl
      rw [hmode, hwrites, Event.texts, List.append_assoc]
      cases Event.texts events <;> rfl

end State

/-- A run writes the texts of its trace, and nothing else, be it that it fails after them: the first
write replaces and the others append. The target then holds the texts one after the other if there
are any, and otherwise what it held; other files hold what they held. -/
theorem runMain_writes (environment : Environment) (target : Path) (main : String)
    (state : State) :
    ∃ trace result, ExecutesMain environment state.scopes main trace result ∧
      let (outcome, after) := (runMain environment target main).run.run state
      outcome = result ∧
      after.output.writes =
        state.output.writes ++ Output.writesOf target .replace trace.texts ∧
      after.output.find? target =
        (if trace.texts = [] then state.output.find? target else some (String.join trace.texts)) ∧
      after.output.others target = state.output.others target := by
  obtain ⟨trace, result, mode, hexec, hrun⟩ :=
    executesMain_of_runMain environment target main state
  refine ⟨trace, result, hexec, ?_⟩
  rw [hrun]
  refine ⟨rfl, State.writes_afterAll .., ?_, State.others_afterAll ..⟩
  dsimp only
  rw [State.find?_afterAll, Event.text_eq_join, Trace.texts]
  by_cases htexts : Event.texts trace.events = []
  · rw [(Event.writes_eq_false_iff _).2 htexts, if_pos htexts]
    rfl
  · have hwrites : Event.writes trace.events = true := by
      rw [← Bool.not_eq_false, Event.writes_eq_false_iff]
      exact htexts
    rw [hwrites, if_neg htexts, if_pos rfl, String.empty_append]

end Execution

end Stencil
