import Stencil.Entries
import Stencil.Path

/-!
# Output

Text that is to be written to files is gathered first. Each path has one text, which a write
replaces or appends to; every write is remembered. Paths with the same key are the same file, which
is shown by the path of its first write.

Main statements: a write changes the text of its path as its mode says (`find?_write_self`) and no
other text (`find?_write_of_ne`).
-/

namespace Stencil

namespace Output

/-- What a write does to the text that is there. -/
inductive Mode where
  | replace
  | append
  deriving DecidableEq, Repr

/-- The text after a write. -/
def Mode.apply : Mode → String → String → String
  | .replace, _, text => text
  | .append, old, text => old ++ text

/-- The text of a file, and the path by which it is shown. -/
structure File where
  path : Path
  text : String
  deriving DecidableEq, Repr

end Output

/-- Text that is to be written to files. -/
structure Output where
  /-- The files, in the order of their first writes. -/
  files : Entries Path.Route Output.File
  /-- The writes, in order. -/
  writes : List (Path × Output.Mode)

namespace Output

/-- No text. -/
def empty : Output := ⟨.empty, []⟩

/-- Whether nothing was written. -/
def isEmpty (output : Output) : Bool :=
  output.files.isEmpty

/-- The text of a path. -/
def find? (output : Output) (path : Path) : Option String :=
  (output.files.find? path.key).map File.text

/-- The file of a path after a write. -/
def written (output : Output) (path : Path) (text : String) (mode : Mode) : File :=
  match output.files.find? path.key with
  | some file => { file with text := mode.apply file.text text }
  | none => ⟨path, text⟩

/-- The output after a write. -/
def write (output : Output) (path : Path) (text : String) (mode : Mode) : Output where
  files := output.files.insert path.key (output.written path text mode)
  writes := output.writes ++ [(path, mode)]

/-- The output with the text of every file changed. -/
def mapTexts (change : Path → String → String) (output : Output) : Output :=
  { output with
    files := output.files.mapValues fun _ file => { file with text := change file.path file.text } }

@[simp] theorem find?_empty (path : Path) : empty.find? path = none := rfl

theorem find?_write_self (output : Output) (path : Path) (text : String) (mode : Mode) :
    (output.write path text mode).find? path =
      some (match output.find? path with
        | some old => mode.apply old text
        | none => text) := by
  simp only [find?, write, Entries.find?_insert_self, Option.map_some, written]
  cases output.files.find? path.key <;> rfl

theorem find?_write_of_ne (output : Output) {path other : Path} (text : String) (mode : Mode)
    (h : other.key ≠ path.key) :
    (output.write path text mode).find? other = output.find? other := by
  simp [find?, write, Entries.find?_insert_of_ne _ _ h]

@[simp] theorem writes_write (output : Output) (path : Path) (text : String) (mode : Mode) :
    (output.write path text mode).writes = output.writes ++ [(path, mode)] := rfl

end Output

end Stencil
