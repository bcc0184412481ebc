import Stencil.CommandLine.Run
import Stencil.Store.Changes

/-!
# The program

The paths that a command line names are loaded into a store, the command is run on it, and the files
that it has changed are written. All decisions are made by `CommandLine.Invocation.run`.
-/

namespace Stencil.Program

/-- What is shown where help is asked for. -/
def usage : String :=
  "Usage: yaldevtools [-v] generate OPERATIONS_FILE -o OUTPUT_DIR --templates-path DIR\n"
    ++ "           [--main ID]... [--project FILE] [--context FILE] [-D KEY=VALUE]... [--format]\n"
    ++ "       yaldevtools [-v] format PATH [--pattern GLOB]... [--check]"

/-- What is shown where the version is asked for. -/
def version : String := "yaldevtools 0.1.0"

/-- The place of a path that starts at the root. -/
def placeOf (path : String) : Place :=
  (Path.mk path).components.filterMap fun
    | .name name => some name
    | _ => none

/-- The path of a place. -/
def pathOf (place : Place) : String :=
  "/" ++ "/".intercalate place

/-- The path without links on the way, if it leads somewhere. -/
def resolve? (path : String) : IO (Option String) := do
  try return some (← IO.FS.realPath path).toString
  catch _ => return none

/-- What was loaded. -/
structure Snapshot where
  store : Store
  /-- The places that need not be loaded again. -/
  loaded : List Place

/-- Adds what is at a path without links on the way, and all within it. -/
partial def Snapshot.add (snapshot : Snapshot) (path : String) : IO Snapshot := do
  let place := placeOf path
  if snapshot.loaded.contains place then return snapshot
  let mut snapshot := { snapshot with loaded := place :: snapshot.loaded }
  let found ← IO.FS.realPath path
  if ← found.isDir then
    if place ≠ [] then
      snapshot := { snapshot with store := snapshot.store.putDeep place .directory }
    for entry in ← found.readDir do
      let inner := place ++ [entry.fileName]
      if let some target ← resolve? (pathOf inner) then
        if target ≠ pathOf inner then
          snapshot := { snapshot with store := snapshot.store.put inner (.link ⟨target⟩) }
        snapshot ← snapshot.add target
  else
    let content ← IO.FS.readBinFile path
    snapshot := { snapshot with store := snapshot.store.putDeep place (.file content) }
  return snapshot

/-- Adds what a path leads to, all within it, and the links on the way. -/
def Snapshot.addPath (snapshot : Snapshot) (path : Path) : IO Snapshot := do
  let start := if path.isAbsolute then [] else snapshot.store.working
  let names := placeOf path.text
  let mut store := snapshot.store
  for count in List.range names.length do
    let place := start ++ names.take (count + 1)
    if let some target ← resolve? (pathOf place) then
      if target ≠ pathOf place then store := store.putDeep place (.link ⟨target⟩)
      else if count + 1 < names.length then store := store.putDeep place .directory
  match ← resolve? path.text with
  | some target => Snapshot.add { snapshot with store } target
  | none => return { snapshot with store }

/-- The paths that a command names. -/
def pathsOf : CommandLine.Command → List Path
  | .generate sources output _ =>
    [sources.operations, sources.templates, output] ++ sources.project.toList
      ++ sources.context.toList
  | .format path _ _ => [path]

/-- Writes a file, and replaces what is there only when all of it is written. -/
def write (place : Place) (content : ByteArray) : IO Unit := do
  let path := pathOf place
  IO.FS.createDirAll (pathOf place.dropLast)
  IO.FS.writeBinFile (path ++ ".new") content
  IO.FS.rename (path ++ ".new") path

/-- Runs an invocation on the files that it names. -/
def run (invocation : CommandLine.Invocation) : IO UInt32 := do
  let mut snapshot : Snapshot := ⟨.empty (placeOf (← IO.currentDir).toString), []⟩
  for path in pathsOf invocation.command do
    snapshot ← snapshot.addPath path
  let before := snapshot.store
  let (status, lines, after) := invocation.run before
  for (place, content) in before.changed after [] do
    write place content
  for line in lines do
    IO.eprintln line
  return status.toUInt32

end Stencil.Program

/-- Follows the command line. -/
def main (words : List String) : IO UInt32 := do
  match Stencil.CommandLine.read words with
  | .ok invocation => Stencil.Program.run invocation
  | .error .displayVersion =>
    IO.println Stencil.Program.version
    return 0
  | .error fault =>
    if fault.status = 2 then IO.eprintln Stencil.Program.usage
    else IO.println Stencil.Program.usage
    return fault.status.toUInt32
