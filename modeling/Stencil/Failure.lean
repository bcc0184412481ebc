import Stencil.Glob.Parser
import Stencil.Message
import Stencil.OperationSet.Reader

/-!
# Failures

Why a command cannot begin: what it is given is not there, cannot be read, or does not say what it
should.
-/

namespace Stencil

/-- Why a command cannot begin. -/
inductive Failure where
  /-- A file cannot be read. -/
  | file (fault : Store.Fault)
  /-- There is no file where one is expected. -/
  | missingFile (path : Path)
  /-- A file does not describe a project. -/
  | project
  /-- The file is no context. -/
  | context (path : Path)
  /-- The text is no definition. -/
  | definition (text : String)
  /-- A file does not describe a set of operations. -/
  | operations (fault : OperationSet.ReadFault)
  /-- The text is no pattern for file names. -/
  | pattern (text : String) (fault : Glob.Fault)

/-- Why a command cannot begin, in words. What is not YAML is not told in detail, nor what is wrong
with a project or context. -/
def Failure.message : Failure → String
  | .file fault => Message.file fault
  | .missingFile path => Message.missingFile path
  | .project => "Configuration error: Invalid project configuration"
  | .context path => "Configuration error: Invalid context file " ++ path.text
  | .definition text =>
    Message.configuration ("invalid definition: " ++ text ++ " (expected KEY=VALUE)")
  | .operations fault =>
    match fault.message? with
    | some text => Message.configuration text
    | none => "YAML error"
  | .pattern text fault =>
    "Pattern error: error parsing glob '" ++ text ++ "': " ++ fault.message ++ "."

/-- Why a command cannot begin, with the cause of the cause. -/
def Failure.report (failure : Failure) : String :=
  match failure with
  | .file fault => failure.message ++ ": " ++ fault.message
  | _ => failure.message

end Stencil
