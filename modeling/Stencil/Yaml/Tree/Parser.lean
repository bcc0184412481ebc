import Stencil.Yaml.Token.Lexer
import Stencil.Yaml.Tree

/-!
# Reading trees

Documents are read from tokens. Where a node may stand and none is written, there is an empty plain
scalar. Each reader gives out what it has read and the tokens after it, or none if the tokens do not
fit or end. With each step it goes down one level or on to the next item, and there are fewer than
four of these for each token.
-/

namespace Stencil.Yaml

namespace Tree

/-- What the handles of tags stand for. -/
abbrev Handles := List (List Char × List Char)

/-- What the handles stand for unless a directive says otherwise. -/
def defaultHandles : Handles :=
  [(['!'], ['!']), (['!', '!'], "tag:yaml.org,2002:".toList)]

/-- The full tag of a handle and a suffix. -/
def fullTag? (handles : Handles) (handle suffix : List Char) : Option String :=
  if handle.isEmpty then some (String.ofList suffix)
  else (handles.lookup handle).map fun start => String.ofList (start ++ suffix)

/-- What stands before a node: an anchor, a tag, both in either order, or nothing. -/
structure Properties where
  anchor : Option (List Char) := none
  tag : Option String := none

/-- What stands before a node, and the tokens after it. -/
def properties? (handles : Handles) : List Token → Option (Properties × List Token)
  | .anchor name :: .tag handle suffix :: rest | .tag handle suffix :: .anchor name :: rest =>
    (fullTag? handles handle suffix).map fun tag => ({ anchor := some name, tag := some tag }, rest)
  | .anchor name :: rest => some ({ anchor := some name }, rest)
  | .tag handle suffix :: rest =>
    (fullTag? handles handle suffix).map fun tag => ({ tag := some tag }, rest)
  | rest => some ({}, rest)

/-- A written tree. -/
abbrev Written := Tree (List Char)

/-- Where a node stands. -/
structure Place where
  /-- Whether block collections may stand there. -/
  allowsBlock : Bool
  /-- Whether a sequence may stand there that is not indented. -/
  allowsIndentless : Bool

/-- An item of a block sequence. -/
def itemPlace : Place := ⟨true, false⟩

/-- A key or value of a block mapping. -/
def pairPlace : Place := ⟨true, true⟩

/-- A node within brackets or braces. -/
def flowPlace : Place := ⟨false, false⟩

mutual

/-- A node. -/
def node? (handles : Handles) (steps : Nat) (place : Place) (tokens : List Token) :
    Option (Written × List Token) :=
  match steps with
  | 0 => none
  | steps + 1 =>
    match tokens with
    | .alias name :: rest => some (.alias name, rest)
    | tokens => do
      let (properties, tokens) ← properties? handles tokens
      let sequence (read : Option (List Written × List Token)) :
          Option (Written × List Token) :=
        read.map fun (items, rest) => (.sequence properties.anchor properties.tag items, rest)
      let mapping (read : Option (List (Written × Written) × List Token)) :
          Option (Written × List Token) :=
        read.map fun (pairs, rest) => (.mapping properties.anchor properties.tag pairs, rest)
      match tokens with
      | [] => none
      | .blockEntry :: rest =>
        if place.allowsIndentless then
          sequence (indentlessItems? handles steps (.blockEntry :: rest))
        else emptyNode? properties (.blockEntry :: rest)
      | .scalar style text :: rest =>
        let tag := if properties.tag = some "!" then none else properties.tag
        some (.scalar properties.anchor ⟨tag, style, String.ofList text⟩, rest)
      | .flowSequenceStart :: rest => sequence (flowItems? handles steps true rest)
      | .flowMappingStart :: rest => mapping (flowPairs? handles steps true rest)
      | .blockSequenceStart :: rest =>
        if place.allowsBlock then sequence (blockItems? handles steps rest)
        else emptyNode? properties (.blockSequenceStart :: rest)
      | .blockMappingStart :: rest =>
        if place.allowsBlock then mapping (blockPairs? handles steps rest)
        else emptyNode? properties (.blockMappingStart :: rest)
      | tokens => emptyNode? properties tokens
where
  /-- The empty node that has properties. -/
  emptyNode? (properties : Properties) (tokens : List Token) : Option (Written × List Token) :=
    if properties.anchor.isSome || properties.tag.isSome then
      some (.scalar properties.anchor ⟨properties.tag, .plain, ""⟩, tokens)
    else none

/-- The items of an indented block sequence, up to and with its end. -/
def blockItems? (handles : Handles) (steps : Nat) (tokens : List Token) :
    Option (List Written × List Token) :=
  match steps, tokens with
  | _, .blockEnd :: rest => some ([], rest)
  | steps + 1, .blockEntry :: rest => do
    let (item, rest) ←
      match rest with
      | .blockEntry :: _ | .blockEnd :: _ => some (.empty, rest)
      | _ => node? handles steps itemPlace rest
    let (items, rest) ← blockItems? handles steps rest
    some (item :: items, rest)
  | _, _ => none

/-- The items of a block sequence that is not indented. -/
def indentlessItems? (handles : Handles) (steps : Nat) (tokens : List Token) :
    Option (List Written × List Token) :=
  match steps, tokens with
  | _, [] => none
  | steps + 1, .blockEntry :: rest => do
    let (item, rest) ←
      match rest with
      | .blockEntry :: _ | .key :: _ | .value :: _ | .blockEnd :: _ => some (.empty, rest)
      | _ => node? handles steps itemPlace rest
    let (items, rest) ← indentlessItems? handles steps rest
    some (item :: items, rest)
  | 0, .blockEntry :: _ => none
  | _, rest => some ([], rest)

/-- A key or value of a block mapping after its mark. -/
def blockPart? (handles : Handles) (steps : Nat) (tokens : List Token) :
    Option (Written × List Token) :=
  match steps, tokens with
  | 0, _ => none
  | _ + 1, .key :: _ | _ + 1, .value :: _ | _ + 1, .blockEnd :: _ => some (.empty, tokens)
  | steps + 1, _ => node? handles steps pairPlace tokens

/-- The pairs of a block mapping, up to and with its end. -/
def blockPairs? (handles : Handles) (steps : Nat) (tokens : List Token) :
    Option (List (Written × Written) × List Token) :=
  match steps, tokens with
  | _, .blockEnd :: rest => some ([], rest)
  | steps + 1, .key :: rest => do
    let (key, rest) ← blockPart? handles steps rest
    let (value, rest) ←
      match rest with
      | .value :: rest => blockPart? handles steps rest
      | [] => none
      | _ => some (.empty, rest)
    let (pairs, rest) ← blockPairs? handles steps rest
    some ((key, value) :: pairs, rest)
  | _, _ => none

/-- The items of a sequence in brackets, up to and with the closing one. -/
def flowItems? (handles : Handles) (steps : Nat) (isFirst : Bool) (tokens : List Token) :
    Option (List Written × List Token) :=
  match steps with
  | 0 => none
  | steps + 1 => do
    let tokens ←
      match tokens with
      | .flowSequenceEnd :: _ => some tokens
      | .flowEntry :: rest => if isFirst then some tokens else some rest
      | _ => if isFirst then some tokens else none
    match tokens with
    | .flowSequenceEnd :: rest => some ([], rest)
    | .key :: rest => do
      let (pair, rest) ← flowPair? handles steps rest
      let (items, rest) ← flowItems? handles steps false rest
      some (.mapping none none [pair] :: items, rest)
    | tokens => do
      let (item, rest) ← node? handles steps flowPlace tokens
      let (items, rest) ← flowItems? handles steps false rest
      some (item :: items, rest)

/-- The only pair of a mapping in brackets, after its mark. Where its key is empty, the mark after
it is taken for a part of the pair. -/
def flowPair? (handles : Handles) (steps : Nat) (tokens : List Token) :
    Option ((Written × Written) × List Token) :=
  match steps with
  | 0 => none
  | steps + 1 => do
    let (key, rest) ←
      match tokens with
      | .value :: rest | .flowEntry :: rest | .flowSequenceEnd :: rest => some (.empty, rest)
      | _ => node? handles steps flowPlace tokens
    let (value, rest) ← flowValue? handles steps rest
    some ((key, value), rest)

/-- The pairs of a mapping in braces, up to and with the closing one. -/
def flowPairs? (handles : Handles) (steps : Nat) (isFirst : Bool) (tokens : List Token) :
    Option (List (Written × Written) × List Token) :=
  match steps with
  | 0 => none
  | steps + 1 => do
    let tokens ←
      match tokens with
      | .flowMappingEnd :: _ => some tokens
      | .flowEntry :: rest => if isFirst then some tokens else some rest
      | _ => if isFirst then some tokens else none
    match tokens with
    | .flowMappingEnd :: rest => some ([], rest)
    | .key :: rest => do
      let (key, rest) ←
        match rest with
        | .value :: _ | .flowEntry :: _ | .flowMappingEnd :: _ => some (.empty, rest)
        | _ => node? handles steps flowPlace rest
      let (value, rest) ← flowValue? handles steps rest
      let (pairs, rest) ← flowPairs? handles steps false rest
      some ((key, value) :: pairs, rest)
    | tokens => do
      let (key, rest) ← node? handles steps flowPlace tokens
      let (pairs, rest) ← flowPairs? handles steps false rest
      some ((key, .empty) :: pairs, rest)

/-- A value within brackets or braces with its mark before it, or nothing. -/
def flowValue? (handles : Handles) (steps : Nat) (tokens : List Token) :
    Option (Written × List Token) :=
  match steps, tokens with
  | 0, _ | _, [] => none
  | steps + 1, .value :: rest =>
    match rest with
    | .flowEntry :: _ | .flowSequenceEnd :: _ | .flowMappingEnd :: _ => some (.empty, rest)
    | _ => node? handles steps flowPlace rest
  | _, _ => some (.empty, tokens)

end

/-- What directives say, and the tokens after them. `version` tells whether one has said the version
yet. -/
def directives? (version : Bool) (handles : Handles) : List Token → Option (Handles × List Token)
  | .versionDirective major minor :: rest =>
    if version || major ≠ 1 || (minor ≠ 1 && minor ≠ 2) then none
    else directives? true handles rest
  | .tagDirective handle start :: rest =>
    if (handles.lookup handle).isSome then none
    else directives? version (handles ++ [(handle, start)]) rest
  | rest => some (handles, rest)

/-- A document, and the tokens after it. All but the first begin with their mark. -/
def document? (isFirst : Bool) (tokens : List Token) : Option (Written × List Token) := do
  let steps := 4 * tokens.length + 4
  let (handles, rest) ← directives? false [] tokens
  let handles := handles ++ defaultHandles
  let (tree, rest) ←
    match rest with
    | .documentStart :: rest =>
      match rest with
      | .versionDirective .. :: _ | .tagDirective .. :: _ | .documentStart :: _
      | .documentEnd :: _ | .streamEnd :: _ => some (.empty, rest)
      | _ => node? handles steps itemPlace rest
    | _ =>
      match tokens with
      | .versionDirective .. :: _ | .tagDirective .. :: _ => none
      | _ => if isFirst then node? handles steps itemPlace tokens else none
  match rest with
  | .documentEnd :: rest => some (tree, rest)
  | [] => none
  | _ => some (tree, rest)

/-- The documents of the tokens, in order, up to the first that cannot be read, which is none. Each
step takes a document. -/
def documents (steps : Nat) (isFirst : Bool) (tokens : List Token) : List (Option Written) :=
  let tokens :=
    if isFirst then tokens else tokens.dropWhile fun token => token = .documentEnd
  match steps, tokens with
  | _, [.streamEnd] => []
  | 0, _ => [none]
  | steps + 1, _ =>
    match document? isFirst tokens with
    | some (tree, rest) => some tree :: documents steps false rest
    | none => [none]

/-- The documents of a text, in order, up to the first that cannot be read, which is none. -/
def documentsOfText (text : String) : List (Option Written) :=
  let tokens := Token.ofText text.toList
  documents (tokens.length + 1) true tokens

end Tree

end Stencil.Yaml
