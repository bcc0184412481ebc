import Stencil.Execution
import Stencil.Session
import Stencil.Source.Format

/-!
# Generating files

Each main operation makes one file, which has the name of the operation. Its text is gathered first
and written only if the whole run succeeds; a fault of one main operation does not touch the files
of the others. How a file is put where its path leads is left open up to the end, where it is said
that `Store.replace` does it.
-/

namespace Stencil

/-- What files are made from. -/
structure Generation where
  operations : OperationSet
  project : Project
  /-- Where the paths of templates start. -/
  templates : Path
  /-- The values of names, besides those of the project. -/
  values : Scope
  /-- Whether source files are formatted before they are written. -/
  formats : Bool

namespace Generation

/-- Why a file is not made. -/
inductive Fault where
  /-- The run fails. -/
  | run (fault : Execution.Fault)
  /-- The file cannot be written. -/
  | write (fault : Store.Fault)
  deriving DecidableEq, Repr

/-- Why a file is not made, in words. -/
def Fault.message : Fault → String
  | .run fault => fault.message
  | .write fault => Message.file fault

/-- The files that were made, and the main operations for which none could be made. -/
structure Report where
  generated : List Path
  failed : List (String × Fault)
  deriving DecidableEq, Repr

/-- What runs use. -/
def environment (generation : Generation) (store : Store) : Execution.Environment where
  operations := generation.operations
  project := generation.project
  templates := .ofStore store generation.templates

/-- The scope that every run starts with: what is given takes the place of what the project says. -/
def scope (generation : Generation) : Scope :=
  generation.project.scope.insertAll generation.values.toList

/-- What files are made from if names are given values; these take the place of what was given
before. -/
def withValues (generation : Generation) (values : Scope) : Generation :=
  { generation with values := generation.values.insertAll values.toList }

/-- What is left after something is done in a run that starts afresh. -/
def runFresh (generation : Generation) (action : Execution.Run α) :
    Task ε (Except Execution.Fault α × Output) := do
  let session ← get
  let start : Execution.State := ⟨.ofScope generation.scope, .replace, .empty, session.log⟩
  let (result, state) := action.run.run start
  set { session with log := state.log }
  return (result, state.output)

/-- The text that a main operation makes when some names have values of their own. -/
def text (generation : Generation) (main : String) (extra : Scope) :
    Task Execution.Fault String := do
  let environment := generation.environment (← Task.store)
  let (result, output) ← generation.runFresh <| Execution.Run.within do
    Execution.Run.modifyScopes fun scopes =>
      extra.toList.foldl (fun scopes entry => scopes.set entry.1 entry.2) scopes
    Execution.runMain environment ⟨main⟩ main
  match result with
  | .ok () => return (output.find? ⟨main⟩).getD ""
  | .error fault => throw fault

/-- Whether a path is that of a source file. -/
def isSource (path : Path) : Bool :=
  path.extension? = some "c" || path.extension? = some "h"

/-- The text of a file as it is written. -/
def finished (generation : Generation) (path : Path) (text : String) : String :=
  if generation.formats && isSource path then Source.formatText text else text

/-- Tells why a file is not made. -/
def tellFault (main : String) : Fault → Task ε Unit
  | .run (.missingTemplate path) =>
    Task.tell .warn .generation ("Skipping: " ++ main ++ " (" ++ Message.missingFile path ++ ")")
  | fault =>
    Task.tell .error .generation
      ("Unable to generate: " ++ main ++ " with error: " ++ fault.message)

section replace

variable (replace : Path → String → Store.Change Unit)

/-- Writes the files, up to the first that cannot be written. -/
def persistBy (output : Output) : Task Store.Fault Unit :=
  output.files.values.forM fun file => Task.replaceFileBy replace file.path file.text

/-- Makes the file of a main operation; none if the operation writes nothing. -/
def generateFileBy (generation : Generation) (directory : Path) (main : String) :
    Task Fault (Option Path) := do
  let target := directory.join ⟨main⟩
  let environment := generation.environment (← Task.store)
  let (result, output) ← generation.runFresh (Execution.runMain environment target main)
  match result with
  | .error fault => throw (.run fault)
  | .ok () =>
    if output.isEmpty then
      Task.tell .debug .generation ("Operation: " ++ main ++ " produced no output")
      return none
    else
      (persistBy replace (output.mapTexts generation.finished)).adapt .write
      return some target

/-- Makes the files of main operations, in order. -/
def generateBy (generation : Generation) (directory : Path) : List String → Task ε Report
  | [] => return ⟨[], []⟩
  | main :: mains => do
    match ← (generation.generateFileBy replace directory main).attempt with
    | .ok (some path) =>
      Task.tell .info .generation ("Generated: " ++ path.text)
      let report ← generateBy generation directory mains
      return { report with generated := path :: report.generated }
    | .ok none => generateBy generation directory mains
    | .error fault =>
      tellFault main fault
      let report ← generateBy generation directory mains
      return { report with failed := (main, fault) :: report.failed }

end replace

/-- Writes the files, up to the first that cannot be written. -/
def persist : Output → Task Store.Fault Unit :=
  persistBy Store.replace

/-- Makes the file of a main operation; none if the operation writes nothing. -/
def generateFile (generation : Generation) (directory : Path) (main : String) :
    Task Fault (Option Path) :=
  generation.generateFileBy Store.replace directory main

/-- Makes the files of main operations, in order. -/
def generate (generation : Generation) (directory : Path) (mains : List String) : Task ε Report :=
  generation.generateBy Store.replace directory mains

end Generation

end Stencil
