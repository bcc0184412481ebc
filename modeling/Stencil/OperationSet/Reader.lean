import Stencil.Operation.Document

/-!
# Reading operations

A text of operations is a stream of documents, one for each operation. Documents are read one by
one: a document that describes no operation does not keep the next ones from being read, but nothing
is read after a part that is not YAML.
-/

namespace Stencil.OperationSet

/-- Why a text is no set of operations. -/
inductive ReadFault where
  /-- A part of the text is not YAML. -/
  | yaml
  /-- A document describes no operation. -/
  | document (fault : Operation.DocumentFault)
  /-- The operations make no set. -/
  | set (fault : Fault)
  deriving DecidableEq, Repr

/-- What is wrong with a text of operations that is YAML, in words. -/
def ReadFault.message? : ReadFault → Option String
  | .yaml => none
  | .document fault => some fault.message
  | .set fault => some fault.message

/-- The operation that a document describes. -/
def readNode (document : Option Yaml.Node) : Except ReadFault Operation :=
  match document.bind Yaml.Value.ofNode? with
  | none => .error .yaml
  | some value =>
    match Operation.read value with
    | .ok operation => .ok operation
    | .error fault => .error (.document fault)

/-- The results up to and with the first that is not YAML. -/
def upToYamlFault : List (Except ReadFault Operation) → List (Except ReadFault Operation)
  | [] => []
  | .error .yaml :: _ => [.error .yaml]
  | result :: results => result :: upToYamlFault results

/-- What the documents of a text describe, in order. -/
def readDocuments (text : String) : List (Except ReadFault Operation) :=
  if Text.isBlankText text.toList then []
  else upToYamlFault ((Yaml.Node.documentsOfText text).map readNode)

/-- The operations that the documents of a text describe; the first fault counts. -/
def readAll (text : String) : Except ReadFault (List Operation) :=
  collect (readDocuments text)
where
  /-- The operations, or the first fault. -/
  collect : List (Except ReadFault Operation) → Except ReadFault (List Operation)
    | [] => .ok []
    | .ok operation :: results => (collect results).map (operation :: ·)
    | .error fault :: _ => .error fault

/-- The set of the operations that a text describes. -/
def read (text : String) : Except ReadFault OperationSet := do
  let operations ← readAll text
  match ofList operations with
  | .ok set => return set
  | .error fault => throw (.set fault)

end Stencil.OperationSet
