/-!
# Faults of the file store

Why a path leads nowhere, or why nothing can be read or written where it leads.
-/

namespace Stencil.Store

/-- Why a file cannot be read or written. -/
inductive Fault where
  /-- Nothing has the name. -/
  | notFound
  /-- Something on the way is not a directory. -/
  | notADirectory
  /-- There is a directory instead of a file. -/
  | isADirectory
  /-- There is something already. -/
  | alreadyExists
  /-- The content is not a text. -/
  | invalidData
  /-- There are too many links on the way. -/
  | filesystemLoop
  /-- The path holds the character of code zero. -/
  | invalidInput
  /-- A name is too long. -/
  | invalidFilename
  /-- The path ends in no name that could be given to a file. -/
  | resourceBusy
  deriving DecidableEq, Repr

/-- Why a file cannot be read or written, in words. -/
def Fault.message : Fault → String
  | .notFound => "No such file or directory (os error 2)"
  | .notADirectory => "Not a directory (os error 20)"
  | .isADirectory => "Is a directory (os error 21)"
  | .alreadyExists => "File exists (os error 17)"
  | .invalidData => "stream did not contain valid UTF-8"
  | .filesystemLoop => "Too many levels of symbolic links (os error 40)"
  | .invalidInput => "file name contained an unexpected NUL byte"
  | .invalidFilename => "File name too long (os error 36)"
  | .resourceBusy => "Device or resource busy (os error 16)"

end Stencil.Store
