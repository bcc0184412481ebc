import Stencil.Context
import Stencil.Failure
import Stencil.Generation
import Stencil.Project.Reader

/-!
# Loading files

Projects, contexts and operations are loaded from files. A project or context has to be a file; that
operations are not there is a fault of reading.
-/

namespace Stencil

/-- The text of the file at a path. -/
def Task.readFile (path : Path) : Task Failure String := do
  match (← Task.store).read path with
  | .ok text => return text
  | .error fault => throw (.file fault)

/-- The text of the file at a path, where there has to be a file. -/
def Task.readRequired (path : Path) (before : Task Failure Unit) : Task Failure String := do
  if !(← Task.store).hasFile path then throw (.missingFile path)
  before
  Task.readFile path

/-- The project that a file describes. -/
def Project.load (path : Path) : Task Failure Project := do
  let text ← Task.readRequired path
    (Task.tell .debug .project ("Loading project configuration from " ++ path.text))
  match Project.ofText? text with
  | some project => return project
  | none => throw .project

/-- The context that a file is. -/
def Context.load (path : Path) : Task Failure Scope := do
  let text ← Task.readRequired path (pure ())
  match Context.ofText? text with
  | some scope => return scope
  | none => throw (.context path)

/-- The names and texts of definitions. -/
def Context.readDefinitions : List String → Except Failure (List (String × Value))
  | [] => .ok []
  | text :: texts =>
    match Context.definition? text with
    | some (name, value) => do
      let rest ← readDefinitions texts
      return (name, .string value) :: rest
    | none => .error (.definition text)

namespace OperationSet

/-- The text of the file of operations at a path. -/
def readFile (path : Path) : Task Failure String := do
  Task.tell .debug .reading ("Reading operations file: " ++ path.text)
  Task.readFile path

/-- The operations that a file describes, in order; they need not make a set. -/
def loadAll (path : Path) : Task Failure (List Operation) := do
  match readAll (← readFile path) with
  | .ok operations => return operations
  | .error fault => throw (.operations fault)

/-- The set of the operations that a text describes. -/
def ofText (text : String) : Task Failure OperationSet := do
  match read text with
  | .ok set =>
    let count := toString set.operations.length
    Task.tell .debug .operations ("Operation graph of " ++ count ++ " operations is acyclic")
    return set
  | .error fault => throw (.operations fault)

/-- The set of the operations that a file describes. -/
def load (path : Path) : Task Failure OperationSet := do
  ofText (← readFile path)

end OperationSet

namespace Generation

/-- Where what files are made from is written. -/
structure Sources where
  operations : Path
  templates : Path
  project : Option Path
  context : Option Path
  definitions : List String
  /-- Whether source files are formatted before they are written. -/
  formats : Bool

/-- What is being loaded. -/
inductive Stage where
  | project (path : Path)
  | context (path : Path)
  | definitions
  | operations (path : Path)
  deriving DecidableEq, Repr

/-- What was being loaded, in words before a cause. -/
def Stage.heading : Stage → String
  | .project path => "Unable to load project: " ++ path.text ++ ": "
  | .context path => "Unable to load context: " ++ path.text ++ ": "
  | .definitions => ""
  | .operations path => "Unable to read operations: " ++ path.text ++ ": "

/-- Why what files are made from cannot be loaded, and what was being loaded. -/
structure LoadFailure where
  stage : Stage
  failure : Failure

/-- Does a part of loading. -/
def during (stage : Stage) (task : Task Failure α) : Task LoadFailure α :=
  task.adapt fun failure => { stage, failure }

/-- Loads what files are made from. Definitions count more than the context. -/
def load (sources : Sources) : Task LoadFailure Generation := do
  let project ←
    match sources.project with
    | some path => during (.project path) (Project.load path)
    | none => pure .empty
  let context ←
    match sources.context with
    | some path => during (.context path) (Context.load path)
    | none => pure .empty
  let definitions ←
    during .definitions (Context.readDefinitions sources.definitions : Except Failure _)
  let operations ← during (.operations sources.operations) (OperationSet.load sources.operations)
  let count := toString operations.operations.length
  Task.tell .debug .generation ("Loaded " ++ count ++ " operations")
  let generation : Generation := {
    operations, project
    templates := sources.templates
    values := .empty
    formats := sources.formats }
  return generation.withValues (context.insertAll definitions)

end Generation

end Stencil
