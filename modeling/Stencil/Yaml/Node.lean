import Stencil.Yaml.Tree.Parser

/-!
# Nodes

A document without anchors and aliases: every alias is replaced by what it stands for. Collections
may be nested 128 deep, what aliases stand for included, and aliases may be followed a hundred times
for each part of the document; so an anchor within itself is no document.
-/

namespace Stencil.Yaml

/-- A document, or a part of one. -/
inductive Node where
  | scalar (scalar : Scalar)
  | sequence (tag : Option String) (items : List Node)
  | mapping (tag : Option String) (pairs : List (Node × Node))

namespace Node

/-- How deep collections may be nested. -/
def maxDepth : Nat := 128

/-- How often aliases may be followed, for each part of a document. -/
def followsPerPart : Nat := 100

/-- What an alias stands for, any other tree itself; `follows` tells how often aliases may still be
followed. -/
def follow? (targets : Nat → Option (Tree Nat)) (tree : Tree Nat) (follows : Nat) :
    Option (Tree Nat × Nat) :=
  match tree with
  | .alias target =>
    match follows with
    | 0 => none
    | follows + 1 => (targets target).map (·, follows)
  | tree => some (tree, follows)

/-- The node of a tree of at most `depth` levels. -/
def ofTree? (targets : Nat → Option (Tree Nat)) : Nat → Tree Nat → StateT Nat Option Node
  | 0, tree => do
    match ← follow? targets tree with
    | .scalar _ text => return .scalar text
    | _ => failure
  | depth + 1, tree => do
    match ← follow? targets tree with
    | .scalar _ text => return .scalar text
    | .sequence _ tag items => return .sequence tag (← items.mapM (ofTree? targets depth))
    | .mapping _ tag pairs =>
      let pairs ← pairs.mapM fun pair => do
        let key ← ofTree? targets depth pair.1
        let value ← ofTree? targets depth pair.2
        return (key, value)
      return .mapping tag pairs
    | .alias _ => failure

/-- The node of a written document. -/
def ofWritten? (written : Tree (List Char)) : Option Node := do
  let (tree, _) ← written.numbered? .empty
  let anchored := tree.anchored.reverse
  let targets (target : Nat) : Option (Tree Nat) := anchored.lookup target
  let (node, _) ← ofTree? targets maxDepth tree (followsPerPart * tree.size)
  return node

/-- The documents of a text, in order, up to the first that cannot be read, which is none. A text
without a document has an empty one. -/
def documentsOfText (text : String) : List (Option Node) :=
  match Tree.documentsOfText text with
  | [] => [some (.scalar .empty)]
  | documents => upToFault (documents.map fun written? => written?.bind ofWritten?)
where
  /-- The documents up to and with the first fault. -/
  upToFault : List (Option Node) → List (Option Node)
    | some node :: documents => some node :: upToFault documents
    | none :: _ => [none]
    | [] => []

/-- The only document of a text; none if there are others, or a part that cannot be read. -/
def ofText? (text : String) : Option Node :=
  match documentsOfText text with
  | [document] => document
  | _ => none

end Node

end Stencil.Yaml
