import Stencil.Output
import Stencil.Store

/-!
# Writing through temporary files

A text is written to a new file next to where the path leads; then the file gets the place of the
path, and what was there is gone. If something fails in between, the new file is removed. The names
of new files are up to the system, and so is what fails although the store allows it.
-/

namespace Stencil.Store

/-- What the system does for a write. -/
structure System where
  /-- The name that a new file in a directory gets, or why there can be none. -/
  newName : Store → Place → Except Fault String
  /-- Nothing has had the name. -/
  fresh : ∀ {store directory name}, newName store directory = .ok name →
    store.find? (directory ++ [name]) = none
  /-- Why the text cannot be written to the file at the place, and what is in the file then; none if
  it can. -/
  shortage? : Store → Place → String → Option (Fault × ByteArray)
  /-- Why the file at the first place cannot get the other place; none if it can. -/
  refusal? : Store → Place → Place → Option Fault

/-- The store without what is at a place. -/
def remove (store : Store) (place : Place) : Store :=
  { store with entries := store.entries.erase place }

/-- The way to the directory in which a file of the path is made first. -/
def around (path : Path) : Path.Route :=
  if path.components.isEmpty then ⟨false, []⟩ else ⟨path.isAbsolute, path.components.dropLast⟩

/-- Makes an empty file with a new name in the directory where the way leads. -/
def makeTemporary (system : System) (route : Path.Route) : Change Place := do
  let store ← get
  let directory ← store.locateRoute route
  if !store.isDirectory directory then throw .notADirectory
  let name ← system.newName store directory
  set (store.put (directory ++ [name]) (.file .empty))
  return directory ++ [name]

/-- Writes a text to the file at a place. -/
def fill (system : System) (place : Place) (text : String) : Change Unit := do
  let store ← get
  match system.shortage? store place text with
  | none => set (store.put place (.file text.toUTF8))
  | some (fault, content) =>
    set (store.put place (.file content))
    throw fault

/-- The place that a file gets with the path, or why it cannot get one. -/
def receiver (store : Store) (path : Path) : Except Fault Place := do
  if path.written.any isForbidden then throw .invalidInput
  else
    match path.written.getLast? with
    | none => throw (if path.isAbsolute then .resourceBusy else .notFound)
    | some last =>
      let parent ← store.locateRoute ⟨path.isAbsolute, path.written.dropLast⟩
      if !store.isDirectory parent then throw .notADirectory
      else
        match last with
        | .name name =>
          if name.utf8ByteSize > maxNameSize then throw .invalidFilename
          else if path.endsInSlash then throw .notADirectory
          else if store.isDirectory (parent ++ [name]) then throw .isADirectory
          else return parent ++ [name]
        | _ => throw .resourceBusy

/-- Gives what is at a place the path, instead of the file or link that has it. -/
def rename (system : System) (place : Place) (path : Path) : Change Unit := do
  let store ← get
  let target ← store.receiver path
  match system.refusal? store place target, store.find? place with
  | some fault, _ => throw fault
  | none, some entry => set ((store.remove place).put target entry)
  | none, none => throw .notFound

/-- Writes the text to a new file and gives it the path. The file is removed if this fails. -/
def putThrough (system : System) (path : Path) (text : String) : Change Unit := do
  let place ← makeTemporary system (around path)
  try
    fill system place text
    rename system place path
  catch fault =>
    modify (·.remove place)
    throw fault

/-- Puts a file with the text where a path leads, and makes the directories that it needs. -/
def replaceThrough (system : System) (path : Path) (text : String) : Change Unit := do
  needDirectories path.isAbsolute path.components.reverse.tail
  putThrough system path text

/-- Writes the files, up to the first that cannot be written. -/
def persistThrough (system : System) (output : Output) : Change Unit :=
  output.files.values.forM fun file => replaceThrough system file.path file.text

/-! ## A system without faults -/

/-- The names that are tried for new files. -/
def temporaryName (n : Nat) : String :=
  String.ofList (".tmp".toList ++ List.replicate n 'x')

/-- A new file gets the first free one of so many names that one is free; nothing fails. -/
def System.plain : System where
  newName store directory :=
    let numbers := List.range (store.entries.toList.length + 1)
    match numbers.find? fun n => (store.find? (directory ++ [temporaryName n])).isNone with
    | some n => .ok (temporaryName n)
    | none => .error .alreadyExists
  fresh := by
    intro store directory name h
    dsimp only at h
    split at h
    · next n hfree =>
      cases h
      have hnone := List.find?_some hfree
      exact Option.isNone_iff_eq_none.1 hnone
    · cases h
  shortage? _ _ _ := none
  refusal? _ _ _ := none

end Stencil.Store
