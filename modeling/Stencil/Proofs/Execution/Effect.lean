import Stencil.Execution
import Stencil.Proofs.Results

/-!
# What a run does to its state

A run writes texts and tells records, one after the other; these are its *events*. What it does not
do is look at the output, the mode or the log, or leave the scopes other than they were. So in given
scopes it has the same result and the same events whatever else the state holds. `Run.Yields` says
this of one action, scopes, result and list of events. The relation has one rule for each way in
which actions are built, and what it says about scopes and texts follows from its form alone: the
scopes of the state stay (`Yields.scopes_eq`), and the texts of the events are put one after the
other behind what was there or in its place (`State.find?_afterAll`).
-/

namespace Stencil.Execution

/-- Something that a run does to its state. -/
inductive Event where
  /-- Tells a record. -/
  | told (record : Log.Record)
  /-- Writes a text. -/
  | wrote (text : String)

namespace Event

/-- The texts that are written, one after the other. -/
def text : List Event → String
  | [] => ""
  | .told _ :: events => text events
  | .wrote written :: events => written ++ text events

/-- Whether a text is written, be it empty. -/
def writes : List Event → Bool
  | [] => false
  | .told _ :: events => writes events
  | .wrote _ :: _ => true

theorem text_eq_empty {events : List Event} (h : writes events = false) : text events = "" := by
  induction events with
  | nil => rfl
  | cons event events ih =>
    cases event with
    | told record => exact ih h
    | wrote written => cases h

@[simp] theorem text_append (first second : List Event) :
    text (first ++ second) = text first ++ text second := by
  induction first with
  | nil => simp [text]
  | cons event events ih =>
    cases event with
    | told record => exact ih
    | wrote written => simp [text, ih, String.append_assoc]

end Event

namespace State

variable {target : Path}

/-- The state after an event. -/
def after (target : Path) (state : State) : Event → State
  | .told record => { state with log := state.log.push record }
  | .wrote text =>
    { state with mode := .append, output := state.output.write target text state.mode }

/-- The state after events. -/
def afterAll (target : Path) (state : State) (events : List Event) : State :=
  events.foldl (after target) state

@[simp] theorem afterAll_nil (state : State) : state.afterAll target [] = state := rfl

@[simp] theorem afterAll_cons (state : State) (event : Event) (events : List Event) :
    state.afterAll target (event :: events) = (state.after target event).afterAll target events :=
  rfl

theorem afterAll_append (state : State) (first second : List Event) :
    state.afterAll target (first ++ second) =
      (state.afterAll target first).afterAll target second :=
  List.foldl_append

@[simp] theorem scopes_after (state : State) (event : Event) :
    (state.after target event).scopes = state.scopes := by
  cases event <;> rfl

@[simp] theorem scopes_afterAll (state : State) (events : List Event) :
    (state.afterAll target events).scopes = state.scopes := by
  induction events generalizing state with
  | nil => rfl
  | cons event events ih => rw [afterAll_cons, ih, scopes_after]

/-- Events do not touch the scopes, so these may be changed before or after them. -/
theorem afterAll_scopes (state : State) (scopes : Scopes) (events : List Event) :
    { state with scopes }.afterAll target events =
      { state.afterAll target events with scopes } := by
  induction events generalizing state with
  | nil => rfl
  | cons event events ih =>
    rw [afterAll_cons, afterAll_cons, ← ih]
    cases event <;> rfl

/-- The text of the target after events: what they write, behind what was there if the first write
appends to it. -/
theorem find?_afterAll (state : State) (events : List Event) :
    (state.afterAll target events).output.find? target =
      if Event.writes events then
        some ((match state.mode with
          | .append => (state.output.find? target).getD ""
          | .replace => "") ++ Event.text events)
      else state.output.find? target := by
  induction events generalizing state with
  | nil => rfl
  | cons event events ih =>
    rw [afterAll_cons, ih]
    cases event with
    | told record => rfl
    | wrote text =>
      have hfind : (state.after target (.wrote text)).output.find? target =
          some ((match state.mode with
            | .append => (state.output.find? target).getD ""
            | .replace => "") ++ text) := by
        simp only [after, Output.find?_write_self]
        cases state.output.find? target <;> cases state.mode <;> simp [Output.Mode.apply]
      have hmode : (state.after target (.wrote text)).mode = .append := rfl
      rw [hfind, hmode]
      cases hwrites : Event.writes events with
      | true => simp [Event.writes, Event.text, String.append_assoc]
      | false => simp [Event.writes, Event.text, Event.text_eq_empty hwrites]

end State

namespace Run

variable {α β : Type} {target : Path} {scopes : Scopes}

/-- In states with the scopes, the action has the result and does what the events say, and nothing
else. -/
def Yields (target : Path) (action : Run α) (scopes : Scopes) (result : Except Fault α)
    (events : List Event) : Prop :=
  ∀ state : State, state.scopes = scopes →
    action.run.run state = (result, state.afterAll target events)

namespace Yields

theorem pure (value : α) : Yields target (Pure.pure value) scopes (.ok value) [] :=
  fun _ _ => rfl

theorem throw (fault : Fault) :
    Yields target (MonadExcept.throw fault : Run α) scopes (.error fault) [] :=
  fun _ _ => rfl

theorem tell (level : Log.Level) (channel : Log.Channel) (text : String) :
    Yields target (Run.tell level channel text) scopes (.ok ())
      [.told ⟨level, channel, text⟩] :=
  fun _ _ => rfl

theorem write (text : String) :
    Yields target (Run.write target text) scopes (.ok ()) [.wrote text] :=
  fun _ _ => rfl

theorem scopes_ok : Yields target Run.scopes scopes (.ok scopes) [] := by
  intro state hscopes
  subst hscopes
  rfl

theorem bind_ok {action : Run α} {next : α → Run β} {value : α} {result : Except Fault β}
    {first second : List Event} (haction : Yields target action scopes (.ok value) first)
    (hnext : Yields target (next value) scopes result second) :
    Yields target (action >>= next) scopes result (first ++ second) := by
  intro state hscopes
  rw [bind_run, haction state hscopes, State.afterAll_append]
  exact hnext _ (by rw [State.scopes_afterAll, hscopes])

theorem bind_error {action : Run α} {next : α → Run β} {fault : Fault} {events : List Event}
    (haction : Yields target action scopes (.error fault) events) :
    Yields target (action >>= next) scopes (.error fault) events := by
  intro state hscopes
  rw [bind_run, haction state hscopes]

theorem discard {action : Run α} {result : Except Fault α} {events : List Event}
    (haction : Yields target action scopes result events) :
    Yields target (Functor.discard action) scopes (result.map fun _ => ()) events := by
  have heq : Functor.discard action = action >>= fun _ => Pure.pure () := by
    rw [bind_pure_comp]
    rfl
  rw [heq]
  cases result with
  | error fault => exact haction.bind_error
  | ok value =>
    rw [← List.append_nil events]
    exact haction.bind_ok (.pure ())

/-- An action in a scope of its own may begin by changing that scope; popping takes the change
away. -/
theorem within {action : Run α} {change : Scopes → Scopes} {result : Except Fault α}
    {events : List Event} (hchange : (change scopes.push).pop = scopes)
    (haction : Yields target action (change scopes.push) result events) :
    Yields target (Run.within (Run.modifyScopes change >>= fun _ => action)) scopes result
      events := by
  intro state hscopes
  subst hscopes
  have hinner : (Run.modifyScopes change >>= fun _ => action).run.run
      { state with scopes := state.scopes.push } =
        (result, { state with scopes := change state.scopes.push }.afterAll target events) := by
    rw [bind_run]
    exact haction { state with scopes := change state.scopes.push } rfl
  rw [within_run, hinner, State.afterAll_scopes]
  simp only [hchange]
  rw [← State.afterAll_scopes]

theorem scopes_eq {action : Run α} {result : Except Fault α} {events : List Event} {state : State}
    (h : Yields target action state.scopes result events) :
    (action.run.run state).2.scopes = state.scopes := by
  rw [h state rfl]
  exact State.scopes_afterAll _ _

end Yields

end Run

end Stencil.Execution
