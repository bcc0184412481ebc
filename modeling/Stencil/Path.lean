import Stencil.Text.Line

/-!
# Paths

A path is a text in which slashes stand between names. It is shown as it is written; what it leads
to depends on its steps alone, and two paths are the same key if their components are the same. A
path that starts with a slash starts at the root, any other where the program works.
-/

namespace Stencil

/-- The path of a file or directory, as it is written. -/
structure Path where
  text : String
  deriving DecidableEq, Repr, Inhabited

namespace Path

/-- A step on the way that a path leads. -/
inductive Step where
  /-- To where the way already is. -/
  | current
  /-- To the directory around it. -/
  | parent
  /-- To what has the name. -/
  | name (name : String)
  deriving DecidableEq, Repr

/-- The step that a part of a path is. -/
def Step.ofText (text : String) : Step :=
  if text = "." then .current else if text = ".." then .parent else .name text

/-- Whether the way starts at the root. -/
def isAbsolute (path : Path) : Bool :=
  path.text.toList.head? = some '/'

/-- Whether the path ends in a slash. Then it leads to a directory or to nothing. -/
def endsInSlash (path : Path) : Bool :=
  path.text.toList.getLast? = some '/'

/-- The steps that are written. -/
def written (path : Path) : List Step :=
  let parts := (Text.cut '/' path.text.toList).filter fun part => !part.isEmpty
  parts.map fun part => .ofText (String.ofList part)

/-- Where a way starts and what steps it takes. -/
structure Route where
  /-- Whether the way starts at the root. -/
  absolute : Bool
  steps : List Step
  deriving DecidableEq, Repr

/-- The way that a path leads. A slash at the end is one more step, which needs a directory. -/
def route (path : Path) : Route :=
  ⟨path.isAbsolute, if path.endsInSlash then path.written ++ [.current] else path.written⟩

/-- The steps that tell paths apart: those to where the way already is count only at the start of a
path that does not start at the root. -/
def components (path : Path) : List Step :=
  match path.isAbsolute, path.written with
  | false, .current :: rest => .current :: rest.filter (· ≠ .current)
  | _, steps => steps.filter (· ≠ .current)

/-- What tells the path from others. -/
def key (path : Path) : Route :=
  ⟨path.isAbsolute, path.components⟩

/-- The name that the path ends with, if it ends with one. -/
def fileName? (path : Path) : Option String :=
  match path.components.getLast? with
  | some (.name name) => some name
  | _ => none

/-- What follows the last full stop of the file name. A full stop at its start does not count. -/
def extension? (path : Path) : Option String := do
  let name ← path.fileName?
  match (Text.cut '.' name.toList).reverse with
  | last :: before =>
    if before.all List.isEmpty && before.length ≤ 1 then none else some (String.ofList last)
  | [] => none

/-- The path that leads on from a path. A path that starts at the root needs nothing before it. -/
def join (path : Path) (next : Path) : Path :=
  if next.isAbsolute then next
  else if path.text.isEmpty || path.endsInSlash then ⟨path.text ++ next.text⟩
  else ⟨path.text ++ "/" ++ next.text⟩

/-- The path that leads on from a path by names, in order. -/
def joinNames (path : Path) (names : List String) : Path :=
  names.foldl (fun path name => path.join ⟨name⟩) path

end Path

end Stencil
