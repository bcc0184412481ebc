import Stencil.Path
import Stencil.Store.Fault

/-!
# Messages

The forms that messages of different parts have in common.
-/

namespace Stencil.Message

/-- Something that is written does not say what it should. -/
def configuration (text : String) : String :=
  "Configuration error: " ++ text ++ "."

/-- A file cannot be read or written. -/
def file (fault : Store.Fault) : String :=
  "IO error: " ++ fault.message ++ "."

/-- There is no file where one is expected. -/
def missingFile (path : Path) : String :=
  "Missing file: " ++ path.text ++ "."

end Stencil.Message
