import Stencil.Entries
import Stencil.Yaml.Token

/-!
# Trees with anchors

A document as it is written: scalars, sequences and mappings, some of them with an anchor, and
aliases that stand for what has the anchor. Anchors are of a type `ι`: names first, then numbers.

A name stands for a number from its anchor on. The number of an anchor is the count of the different
names before it; of several anchors with one number the last one counts.
-/

namespace Stencil.Yaml

/-- A scalar as it is written, with its full tag. -/
structure Scalar where
  tag : Option String
  style : Style
  text : String
  deriving DecidableEq, Repr

/-- The scalar that stands where nothing is written. -/
def Scalar.empty : Scalar := ⟨none, .plain, ""⟩

/-- A document as it is written. -/
inductive Tree (ι : Type) where
  | alias (target : ι)
  | scalar (anchor : Option ι) (scalar : Scalar)
  | sequence (anchor : Option ι) (tag : Option String) (items : List (Tree ι))
  | mapping (anchor : Option ι) (tag : Option String) (pairs : List (Tree ι × Tree ι))

namespace Tree

/-- Nothing. -/
def empty {ι : Type} : Tree ι := .scalar none .empty

/-- The names that stand for a number. -/
abbrev Names := Entries (List Char) Nat

/-- The number of an anchor, and the names with it. -/
def number (names : Names) : Option (List Char) → Option Nat × Names
  | none => (none, names)
  | some name => (some names.keys.length, names.insert name names.keys.length)

mutual

/-- The tree with numbers for names; none if an alias has no anchor before it. -/
def numbered? (names : Names) : Tree (List Char) → Option (Tree Nat × Names)
  | .alias name => (names.find? name).map fun target => (.alias target, names)
  | .scalar anchor text =>
    let (anchor, names) := number names anchor
    some (.scalar anchor text, names)
  | .sequence anchor tag items => do
    let (anchor, names) := number names anchor
    let (items, names) ← numberedItems? names items
    some (.sequence anchor tag items, names)
  | .mapping anchor tag pairs => do
    let (anchor, names) := number names anchor
    let (pairs, names) ← numberedPairs? names pairs
    some (.mapping anchor tag pairs, names)

/-- The items with numbers for names. -/
def numberedItems? (names : Names) : List (Tree (List Char)) → Option (List (Tree Nat) × Names)
  | [] => some ([], names)
  | item :: items => do
    let (item, names) ← numbered? names item
    let (items, names) ← numberedItems? names items
    some (item :: items, names)

/-- The pairs with numbers for names. -/
def numberedPairs? (names : Names) :
    List (Tree (List Char) × Tree (List Char)) → Option (List (Tree Nat × Tree Nat) × Names)
  | [] => some ([], names)
  | (key, value) :: pairs => do
    let (key, names) ← numbered? names key
    let (value, names) ← numbered? names value
    let (pairs, names) ← numberedPairs? names pairs
    some ((key, value) :: pairs, names)

end

/-- The anchor of a tree. -/
def anchor? {ι : Type} : Tree ι → Option ι
  | .alias _ => none
  | .scalar anchor _ | .sequence anchor _ _ | .mapping anchor _ _ => anchor

variable {ι : Type}

mutual

/-- The trees with an anchor, in the order in which they begin. -/
def anchored : Tree ι → List (ι × Tree ι)
  | .alias _ => []
  | .scalar anchor text => (anchor.map fun a => (a, .scalar anchor text)).toList
  | .sequence anchor tag items =>
    (anchor.map fun a => (a, .sequence anchor tag items)).toList ++ anchoredItems items
  | .mapping anchor tag pairs =>
    (anchor.map fun a => (a, .mapping anchor tag pairs)).toList ++ anchoredPairs pairs

/-- The items with an anchor, and what has an anchor in them. -/
def anchoredItems : List (Tree ι) → List (ι × Tree ι)
  | [] => []
  | item :: items => anchored item ++ anchoredItems items

/-- The same for pairs. -/
def anchoredPairs : List (Tree ι × Tree ι) → List (ι × Tree ι)
  | [] => []
  | (key, value) :: pairs => anchored key ++ anchored value ++ anchoredPairs pairs

end

mutual

/-- The size of a tree: a collection counts for its start and its end. -/
def size : Tree ι → Nat
  | .alias _ | .scalar _ _ => 1
  | .sequence _ _ items => 2 + sizeItems items
  | .mapping _ _ pairs => 2 + sizePairs pairs

/-- The size of items. -/
def sizeItems : List (Tree ι) → Nat
  | [] => 0
  | item :: items => size item + sizeItems items

/-- The size of pairs. -/
def sizePairs : List (Tree ι × Tree ι) → Nat
  | [] => 0
  | (key, value) :: pairs => size key + size value + sizePairs pairs

end

end Tree

end Stencil.Yaml
