import Stencil.Failure
import Stencil.Session
import Stencil.Source.Format

/-!
# Reformatting files

The source files within a directory that patterns select by their names, or one file, are formatted
in place or only checked. A file that cannot be formatted does not keep the others from being
formatted. How a file is replaced is left open up to the end, where it is said that `Store.replace`
does it.
-/

namespace Stencil

/-- Which files are reformatted, and how. -/
structure Reformatting where
  /-- A file is selected if one of the patterns selects its name. -/
  patterns : List Glob
  /-- Whether files are only checked. -/
  checks : Bool

namespace Reformatting

/-- The patterns that count if none is given. -/
def defaultPatterns : List String := ["*.c", "*.h"]

/-- The patterns that texts are; the first that is none fails. -/
def readPatterns : List String → Except Failure (List Glob)
  | [] => .ok []
  | text :: texts =>
    match Glob.parse text with
    | .ok glob => do
      let globs ← readPatterns texts
      return glob :: globs
    | .error fault => .error (.pattern text fault)

/-- What is reformatted by the patterns that texts are. -/
def ofPatterns (texts : List String) (checks : Bool) : Except Failure Reformatting := do
  let patterns ← readPatterns (if texts.isEmpty then defaultPatterns else texts)
  return { patterns, checks }

/-- Whether a path is selected. -/
def selects (reformatting : Reformatting) (path : Path) : Bool :=
  path.fileName?.any fun name => reformatting.patterns.any (·.matches name)

/-- How many files were looked at, which of them change, and which could not be formatted. -/
structure Report where
  checked : Nat
  changed : List Path
  failed : List (Path × Store.Fault)
  deriving DecidableEq, Repr

/-- The path of a place within the directory that a path leads to. -/
def pathWithin (root : Path) (directory place : Place) : Path :=
  root.joinNames (place.drop directory.length)

/-- The paths of the files within the directory that a path leads to, in the order of names. -/
def filesBelow (store : Store) (root : Path) : List Path :=
  match store.locate root with
  | .ok directory => (store.filesWithin directory).map (pathWithin root directory)
  | .error _ => []

section replace

variable (replace : Path → String → Store.Change Unit)

/-- Formats a file, and tells whether it changes. -/
def reformatFileBy (reformatting : Reformatting) (path : Path) : Task Store.Fault Bool := do
  match (← Task.store).read path with
  | .error fault => throw fault
  | .ok text =>
    let formatted := Source.formatText text
    if formatted = text then
      Task.tell .debug .reformatting ("Unchanged: " ++ path.text)
      return false
    else if reformatting.checks then
      Task.tell .info .reformatting ("Would reformat: " ++ path.text)
      return true
    else
      Task.replaceFileBy replace path formatted
      Task.tell .info .reformatting ("Reformatted: " ++ path.text)
      return true

/-- Formats files, in order. -/
def reformatFilesBy (reformatting : Reformatting) : List Path → Task ε Report
  | [] => return ⟨0, [], []⟩
  | path :: paths => do
    let result ← (reformatting.reformatFileBy replace path).attempt
    if let .error fault := result then
      Task.tell .error .reformatting
        ("Unable to format: " ++ path.text ++ " with error: " ++ Message.file fault)
    let report ← reformatFilesBy reformatting paths
    let checked := report.checked + 1
    match result with
    | .ok true => return { report with checked, changed := path :: report.changed }
    | .ok false => return { report with checked }
    | .error fault => return { report with checked, failed := (path, fault) :: report.failed }

/-- Formats the file that a path leads to, or the selected files within the directory. -/
def reformatBy (reformatting : Reformatting) (root : Path) : Task Failure Report := do
  let store ← Task.store
  if !store.contains root then throw (.missingFile root)
  else if store.hasFile root then reformatting.reformatFilesBy replace [root]
  else
    reformatting.reformatFilesBy replace ((filesBelow store root).filter reformatting.selects)

end replace

/-- Formats the file that a path leads to, or the selected files within the directory. -/
def reformat (reformatting : Reformatting) (root : Path) : Task Failure Report :=
  reformatting.reformatBy Store.replace root

end Reformatting

end Stencil
