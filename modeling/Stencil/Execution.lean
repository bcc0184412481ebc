import Stencil.Execution.State
import Stencil.Text.Quoted

/-!
# Running operations

An operation runs if its condition holds. A group runs its operations in turn, a selection the one
that a value selects, a sequence its operations for each item of a list, and a template writes a
text. An operation that is not there is passed over with a warning; it ends the group that refers to
it. The first write of a run replaces what is there, later ones append to it.

A run comes to an end because operations have ranks: what an operation runs has a lower rank than
it.
-/

namespace Stencil.Execution

/-- Whether the condition of an operation holds. A condition that has no value does not hold. -/
def applies (environment : Environment) (operation : Operation) : Run Bool := do
  match operation.condition with
  | none => return true
  | some condition =>
    match condition.holds (environment.names (← Run.scopes)) with
    | .ok holds => return holds
    | .error fault =>
      Run.tell .warn .execution
        ("Unable to evaluate condition: " ++ condition.source ++ " of operation: "
          ++ operation.identifier ++ " with error: Condition error: " ++ fault.message ++ ".")
      return false

/-- Runs operations in turn, up to the first that is not there. -/
def runUntilMissing :
    (identifiers : List String) →
      ((identifier : String) → identifier ∈ identifiers → Run Bool) → Run Unit
  | [], _ => pure ()
  | identifier :: rest, run => do
    if ← run identifier (List.mem_cons_self ..) then
      runUntilMissing rest fun other h => run other (List.mem_cons_of_mem _ h)

/-- Runs operations in turn. -/
def runAll :
    (identifiers : List String) →
      ((identifier : String) → identifier ∈ identifiers → Run Bool) → Run Unit
  | [], _ => pure ()
  | identifier :: rest, run => do
    discard <| run identifier (List.mem_cons_self ..)
    runAll rest fun other h => run other (List.mem_cons_of_mem _ h)

/-- The operation that a selection selects for the text of a value. -/
def selected? (options : Entries String String) (default : Option String)
    (text : Option String) : Option String :=
  (text.bind options.find?).or default

theorem mem_of_selected? {options : Entries String String} {default text : Option String}
    {identifier : String} (h : selected? options default text = some identifier) :
    identifier ∈ options.values ++ default.toList := by
  unfold selected? at h
  rw [Option.or_eq_some_iff] at h
  rcases h with h | ⟨-, h⟩
  · obtain ⟨key, -, hfind⟩ := Option.bind_eq_some_iff.1 h
    exact List.mem_append_left _ (Entries.mem_values_of_find? hfind)
  · simp [h]

/-- The items that a sequence runs its operations for; none if the value is no list. -/
def elements? : Option Value → Option (List Value)
  | some (.array items) => some items
  | none | some .null => some []
  | some _ => none

/-- The text of a selected value in the log. -/
def shown : Option String → String
  | some text => "Some(" ++ Text.quoted text ++ ")"
  | none => "None"

/-- The text of a template at a path, its names put in. Names that need no value are rendered as
nothing if they have none. -/
def renderTemplate (path : Path) (content : Except Store.Fault String)
    (placeholders : List String) : Run String := do
  Run.modifyScopes (·.declare placeholders)
  Run.tell .debug .template ("Rendering template: " ++ path.text)
  match content with
  | .error fault => throw (.unreadable fault)
  | .ok template =>
    match Template.render (← Run.scopes).get? template with
    | .ok text => return text
    | .error fault => throw (.template path fault)

/-- Does what an operation is for. `run` runs an operation that it refers to, and tells whether that
operation is there. -/
def perform (environment : Environment) (target : Path) (identifier : String) :
    (kind : Operation.Kind) →
      ((reference : String) → reference ∈ kind.references → Run Bool) → Run Unit
  | .group operations, run => runUntilMissing operations run
  | .selection input options default, run => do
    let text := ((← Run.scopes).get? input).bind Value.text?
    match h : selected? options default text with
    | some reference => discard <| run reference (mem_of_selected? h)
    | none =>
      Run.tell .debug .execution
        ("No option of selection: " ++ identifier ++ " matches value: " ++ shown text)
  | .sequence input operations placeholder fallback, run => do
    let value := (← Run.scopes).get? input
    match elements? value with
    | none =>
      Run.tell .warn .execution
        ("Input: " ++ input ++ " of sequence: " ++ identifier ++ " is not a collection: "
          ++ (value.getD .null).json)
    | some [] =>
      match h : fallback with
      | some reference => discard <| run reference (by simp [Operation.Kind.references, h])
      | none => pure ()
    | some elements =>
      elements.forM fun element =>
        Run.within do
          Run.modifyScopes (·.set placeholder element)
          runAll operations fun reference h => run reference (List.mem_append_left _ h)
  | .template file placeholders fallback modifiers, run => do
    let path := environment.templates.directory.join ⟨file⟩
    match environment.templates.read? path with
    | none =>
      match h : fallback with
      | some reference => do
        Run.tell .debug .execution
          ("Template: " ++ path.text ++ " missing, using fallback: " ++ reference)
        discard <| run reference (by simp [Operation.Kind.references, h])
      | none => throw (.missingTemplate path)
    | some content => do
      let text ← Run.within (renderTemplate path content placeholders)
      Run.write target (String.ofList (Modifier.applyAll modifiers text.toList))

/-- Runs an operation, if its condition holds. -/
def runOperation (environment : Environment) (target : Path) (operation : Operation)
    (_hmem : operation ∈ environment.operations.operations) : Run Unit := do
  if ← applies environment operation then
    Run.tell .debug .execution
      ("Running " ++ operation.kind.name ++ " operation: " ++ operation.identifier)
    perform environment target operation.identifier operation.kind fun reference _href => do
      match hfind : environment.operations.find? reference with
      | some other =>
        runOperation environment target other (OperationSet.mem_of_find? hfind).1
        return true
      | none =>
        Run.tell .warn .execution
          ("Missing operation: " ++ reference ++ " referenced by: " ++ operation.identifier)
        return false
  else
    Run.tell .debug .execution
      ("Skipping operation: " ++ operation.identifier ++ " (condition not met)")
termination_by environment.operations.rank operation.identifier
decreasing_by exact OperationSet.rank_lt_rank _hmem hfind _href

/-- Runs an operation that another one refers to, and tells whether it is there. -/
def runReference (environment : Environment) (target : Path) (parent reference : String) :
    Run Bool := do
  match hfind : environment.operations.find? reference with
  | some other =>
    runOperation environment target other (OperationSet.mem_of_find? hfind).1
    return true
  | none =>
    Run.tell .warn .execution
      ("Missing operation: " ++ reference ++ " referenced by: " ++ parent)
    return false

/-- An operation that is run may run what it refers to. -/
theorem runOperation_eq {environment : Environment} {target : Path} (operation : Operation)
    (hmem : operation ∈ environment.operations.operations) :
    runOperation environment target operation hmem =
      applies environment operation >>= fun holds =>
        if holds then
          Run.tell .debug .execution
              ("Running " ++ operation.kind.name ++ " operation: " ++ operation.identifier)
            >>= fun _ => perform environment target operation.identifier operation.kind
              fun reference _ => runReference environment target operation.identifier reference
        else
          Run.tell .debug .execution
            ("Skipping operation: " ++ operation.identifier ++ " (condition not met)") := by
  rw [runOperation]
  rfl

/-- Runs the operation of an identifier. Its first write replaces what is there. -/
def runMain (environment : Environment) (target : Path) (main : String) : Run Unit := do
  match hfind : environment.operations.find? main with
  | some operation =>
    modify fun state => { state with mode := .replace }
    runOperation environment target operation (OperationSet.mem_of_find? hfind).1
  | none => throw (.undefinedOperation main)

end Stencil.Execution
