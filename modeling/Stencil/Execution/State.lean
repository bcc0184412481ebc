import Stencil.Log
import Stencil.Message
import Stencil.OperationSet
import Stencil.Output
import Stencil.Project
import Stencil.Scopes
import Stencil.Store
import Stencil.Template

/-!
# What runs work on

A run is given operations, a project and templates, none of which it changes. It changes scopes,
output and the log; if it fails, what it has changed stays changed.

Main statement: what is done within a scope of its own starts with one scope more and ends with one
scope less, whether it fails or not (`Run.within_run`).
-/

namespace Stencil.Execution

/-- The templates that operations name. -/
structure Templates where
  /-- Where the paths of templates start. -/
  directory : Path
  /-- The text that a path leads to, or why it cannot be read; none if the path leads nowhere. -/
  read? : Path → Option (Except Store.Fault String)

/-- The templates in a store. -/
def Templates.ofStore (store : Store) (directory : Path) : Templates where
  directory
  read? path := if store.contains path then some (store.read path) else none

/-- What runs use. -/
structure Environment where
  operations : OperationSet
  project : Project
  templates : Templates

/-- What conditions see: what names mean in the scopes, or else the attributes of the project. -/
def Environment.names (environment : Environment) (scopes : Scopes) : Condition.Namespace :=
  fun name => (scopes.get? name).or (environment.project.attribute? name)

/-- Why a run fails. -/
inductive Fault where
  /-- The operation that is to be run is not there. -/
  | undefinedOperation (identifier : String)
  /-- There is no template at the path. -/
  | missingTemplate (path : Path)
  /-- The template cannot be read. -/
  | unreadable (fault : Store.Fault)
  /-- The template cannot be rendered. -/
  | template (path : Path) (fault : Template.Fault)
  deriving DecidableEq, Repr

/-- Why a run fails, in words. -/
def Fault.message : Fault → String
  | .undefinedOperation identifier =>
    Message.configuration ("undefined operation: " ++ identifier)
  | .missingTemplate path => Message.missingFile path
  | .unreadable fault => Message.file fault
  | .template path fault =>
    "Unable to format template: " ++ path.text ++ " with error: " ++ fault.message ++ "."

/-- What a run changes. -/
structure State where
  scopes : Scopes
  /-- What the next write does to the text that is there. -/
  mode : Output.Mode
  output : Output
  log : Log

/-- What is done in a run. -/
abbrev Run := ExceptT Fault (StateM State)

namespace Run

/-- Tells something in the log. -/
def tell (level : Log.Level) (channel : Log.Channel) (text : String) : Run Unit :=
  modify fun state => { state with log := state.log.push ⟨level, channel, text⟩ }

/-- The scopes. -/
def scopes : Run Scopes := do
  return (← get).scopes

/-- Changes the scopes. -/
def modifyScopes (change : Scopes → Scopes) : Run Unit :=
  modify fun state => { state with scopes := change state.scopes }

/-- Does something within a scope of its own, which is gone afterwards, also after a fault. -/
def within (action : Run α) : Run α :=
  ExceptT.mk do
    modify fun state => { state with scopes := state.scopes.push }
    let result ← action.run
    modify fun state => { state with scopes := state.scopes.pop }
    return result

/-- Writes a text. Later writes append to it. -/
def write (target : Path) (text : String) : Run Unit :=
  modify fun state =>
    { state with mode := .append, output := state.output.write target text state.mode }

theorem within_run (action : Run α) (state : State) :
    (within action).run.run state =
      let inner := action.run.run { state with scopes := state.scopes.push }
      (inner.1, { inner.2 with scopes := inner.2.scopes.pop }) := rfl

end Run

end Stencil.Execution
