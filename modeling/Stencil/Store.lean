import Stencil.Entries
import Stencil.Path
import Stencil.Sorting
import Stencil.Store.Fault

/-!
# The file store

Files, directories and links at their places. A place is a list of names, from the root on; a path
leads to a place along its steps, and the links on the way are followed.

Main statements: what is put at a place is there (`find?_put_self`), and all other places are as
before (`find?_put_of_ne`).
-/

namespace Stencil

/-- The names on the way from the root. -/
abbrev Place := List String

namespace Store

/-- What may be at a place. -/
inductive Entry where
  | file (content : ByteArray)
  | link (target : Path)
  | directory

end Store

/-- What is at which place, and where paths that do not start at the root start. -/
structure Store where
  /-- What is at which place; the root is a directory that is not listed. -/
  entries : Entries Place Store.Entry
  /-- Where other paths start. -/
  working : Place

namespace Store

/-- What is at a place. -/
def find? (store : Store) (place : Place) : Option Entry :=
  match place with
  | [] => some .directory
  | place => store.entries.find? place

/-- Whether there is a directory at a place. -/
def isDirectory (store : Store) (place : Place) : Bool :=
  match store.find? place with
  | some .directory => true
  | _ => false

/-- The store with something at a place. -/
def put (store : Store) (place : Place) (entry : Entry) : Store :=
  { store with entries := store.entries.insert place entry }

@[simp] theorem find?_put_self (store : Store) {place : Place} (entry : Entry) (h : place ≠ []) :
    (store.put place entry).find? place = some entry := by
  cases place with
  | nil => exact absurd rfl h
  | cons name names => simp [put, find?]

theorem find?_put_of_ne (store : Store) {place other : Place} (entry : Entry)
    (h : other ≠ place) : (store.put place entry).find? other = store.find? other := by
  cases other with
  | nil => rfl
  | cons name names => exact Entries.find?_insert_of_ne _ _ h

/-- The store with something at a place, and with the directories that it needs. -/
def putDeep (store : Store) (place : Place) (entry : Entry) : Store :=
  let parents := (List.range place.length).map fun n => place.take n
  let directories := parents.filter fun parent => (store.find? parent).isNone
  (directories.foldl (fun store parent => store.put parent .directory) store).put place entry

/-- A store of which only the directory is known where paths start. -/
def empty (working : Place) : Store :=
  let store : Store := ⟨.empty, working⟩
  if working = [] then store else store.putDeep working .directory

/-! ## Following paths -/

/-- How many links may be followed on one way. -/
def maxLinks : Nat := 40

/-- How many bytes a name may have. -/
def maxNameSize : Nat := 255

/-- Where steps lead from a place. `link` says how it goes on at a link: from the directory around
it, to its target, and along the steps that are left. -/
def followWith (store : Store) (link : Place → Path → List Path.Step → Except Fault Place) :
    Place → List Path.Step → Except Fault Place
  | place, [] => .ok place
  | place, step :: steps =>
    match store.find? place with
    | some .directory =>
      match step with
      | .current => followWith store link place steps
      | .parent => followWith store link place.dropLast steps
      | .name name =>
        if name.utf8ByteSize > maxNameSize then .error .invalidFilename
        else
          match store.find? (place ++ [name]) with
          | some (.link target) => link place target steps
          | some _ => followWith store link (place ++ [name]) steps
          | none => .error .notFound
    | some _ => .error .notADirectory
    | none => .error .notFound

/-- Where steps lead from a place, if at most so many links are on the way. -/
def follow (store : Store) : Nat → Place → List Path.Step → Except Fault Place
  | 0 => followWith store fun _ _ _ => .error .filesystemLoop
  | links + 1 =>
    followWith store fun place target steps =>
      follow store links (if target.isAbsolute then [] else place) (target.route.steps ++ steps)

/-- Whether a step is to a name with a character that no name has. -/
def isForbidden : Path.Step → Bool
  | .name name => name.contains '\x00'
  | _ => false

/-- Where a way leads. -/
def locateRoute (store : Store) (route : Path.Route) : Except Fault Place :=
  if route.steps.any isForbidden then .error .invalidInput
  else store.follow maxLinks (if route.absolute then [] else store.working) route.steps

/-- Where a path leads. -/
def locate (store : Store) (path : Path) : Except Fault Place :=
  if path.text.isEmpty then .error .notFound else store.locateRoute path.route

/-- Whether a path leads somewhere. -/
def contains (store : Store) (path : Path) : Bool :=
  (store.locate path).isOk

/-- What a path leads to. -/
def get? (store : Store) (path : Path) : Option Entry :=
  match store.locate path with
  | .ok place => store.find? place
  | .error _ => none

/-- Whether a path leads to a file. -/
def hasFile (store : Store) (path : Path) : Bool :=
  match store.get? path with
  | some (.file _) => true
  | _ => false

/-! ## Reading -/

/-- The content of the file that a path leads to. -/
def readBytes (store : Store) (path : Path) : Except Fault ByteArray := do
  match store.find? (← store.locate path) with
  | some (.file content) => return content
  | some .directory => throw .isADirectory
  | _ => throw .notFound

/-- The text of the file that a path leads to. -/
def read (store : Store) (path : Path) : Except Fault String := do
  match String.fromUTF8? (← store.readBytes path) with
  | some text => return text
  | none => throw .invalidData

/-- The places of the files within a directory, in the order of the names on the way. -/
def filesWithin (store : Store) (directory : Place) : List Place :=
  let places := store.entries.toList.filterMap fun (place, entry) =>
    match entry with
    | .file _ => if directory.isPrefixOf place then some place else none
    | _ => none
  stableSort (lexLe fun a b => decide (a < b)) places

/-! ## Writing -/

/-- What is done to a store: it may fail, and then the store is as it was left. -/
abbrev Change := ExceptT Fault (StateM Store)

/-- Makes a directory where a way leads. -/
def makeDirectory (route : Path.Route) : Change Unit := do
  let store ← get
  if route.steps.any isForbidden then throw .invalidInput
  let parent ← store.locateRoute { route with steps := route.steps.dropLast }
  if !store.isDirectory parent then throw .notADirectory
  match route.steps.getLast? with
  | some (.name name) =>
    if name.utf8ByteSize > maxNameSize then throw .invalidFilename
    if (store.find? (parent ++ [name])).isSome then throw .alreadyExists
    set (store.put (parent ++ [name]) .directory)
  | _ => throw .alreadyExists

/-- Whether a way leads to a directory. -/
def leadsToDirectory (store : Store) (route : Path.Route) : Bool :=
  match store.locateRoute route with
  | .ok place => store.isDirectory place
  | .error _ => false

/-- Makes a directory where a way leads. It is no fault if there is one. -/
def needDirectory (route : Path.Route) : Change Unit := do
  try makeDirectory route
  catch fault => if !(← get).leadsToDirectory route then throw fault

/-- Makes a directory where the steps, the last one first, lead, and those around it. -/
def needDirectories (absolute : Bool) : List Path.Step → Change Unit
  | [] => pure ()
  | last :: before => do
    let route := ⟨absolute, (last :: before).reverse⟩
    try needDirectory route
    catch
      | .notFound => do
        needDirectories absolute before
        needDirectory route
      | fault => throw fault

/-- Puts a file with the text where a path leads, instead of the file or link that is there. -/
def putFile (path : Path) (text : String) : Change Unit := do
  let store ← get
  if path.written.any isForbidden then throw .invalidInput
  match path.written.getLast? with
  | none => throw (if path.isAbsolute then .resourceBusy else .notFound)
  | some last =>
    let parent ← store.locateRoute ⟨path.isAbsolute, path.written.dropLast⟩
    if !store.isDirectory parent then throw .notADirectory
    match last with
    | .name name =>
      if name.utf8ByteSize > maxNameSize then throw .invalidFilename
      if path.endsInSlash then throw .notADirectory
      if store.isDirectory (parent ++ [name]) then throw .isADirectory
      set (store.put (parent ++ [name]) (.file text.toUTF8))
    | _ => throw .resourceBusy

/-- Puts a file with the text where a path leads, and makes the directories that it needs. -/
def replace (path : Path) (text : String) : Change Unit := do
  needDirectories path.isAbsolute path.components.reverse.tail
  putFile path text

end Store

end Stencil
