/-!
# Words of a command line

A command has parameters: flags, options that take a text, and places for texts without a name. The
words of a command line are read one by one. A text for an option or place is kept back until the
next parameter is read, so that a word that belongs to no parameter is told before a fault of what
was kept.
-/

namespace Stencil.CommandLine

/-- Why a command line is not followed. -/
inductive UsageFault where
  /-- Help is asked for. -/
  | displayHelp
  /-- The version is asked for. -/
  | displayVersion
  /-- Nothing is asked for. -/
  | displayHelpOnMissingArgument
  /-- The text for a parameter is missing or empty. -/
  | invalidValue
  /-- A word belongs to no parameter. -/
  | unknownArgument
  /-- A word is no command. -/
  | invalidSubcommand
  /-- A parameter is given twice. -/
  | argumentConflict
  /-- A flag has a text. -/
  | tooManyValues
  /-- A parameter is missing. -/
  | missingRequiredArgument
  /-- The command is missing. -/
  | missingSubcommand
  deriving DecidableEq, Repr

/-- The status with which a program ends that does not follow its command line. -/
def UsageFault.status : UsageFault → Nat
  | .displayHelp | .displayVersion => 0
  | .missingRequiredArgument | .missingSubcommand => 1
  | _ => 2

/-- What a parameter takes. -/
inductive Kind where
  /-- Nothing; giving it is what counts. -/
  | flag
  /-- Nothing; help is asked for. -/
  | help
  /-- Nothing; the version is asked for. -/
  | version
  /-- A path, which is not empty. -/
  | path
  /-- Texts, each of which is given on its own. -/
  | texts
  deriving DecidableEq, Repr

/-- A parameter of a command. -/
structure Parameter where
  /-- The name, which follows two hyphens if the parameter is no place. -/
  name : String
  /-- The letter that may follow one hyphen. -/
  letter : Option Char := none
  kind : Kind
  deriving DecidableEq, Repr

/-- Whether a parameter takes a text. -/
def Parameter.takesText (parameter : Parameter) : Bool :=
  parameter.kind = .path || parameter.kind = .texts

/-- The parameters of a command. -/
structure Parameters where
  /-- The flags and options. -/
  named : List Parameter
  /-- The places for texts without a name. -/
  places : List Parameter

/-- What was read of a command line. -/
structure Reading where
  /-- The parameters that were given, with their texts, in order. -/
  given : List (Parameter × String)
  /-- The parameter that was read last, and its text if it has one already. -/
  kept : Option (Parameter × Option String)
  /-- The places that are left. -/
  places : List Parameter

namespace Reading

/-- Nothing was read. -/
def start (parameters : Parameters) : Reading := ⟨[], none, parameters.places⟩

/-- The texts of a parameter, in order. -/
def texts (reading : Reading) (name : String) : List String :=
  (reading.given.filter fun entry => entry.1.name = name).map Prod.snd

/-- Whether a parameter was given. -/
def has (reading : Reading) (name : String) : Bool :=
  reading.given.any fun entry => entry.1.name = name

/-- Gives a text to a parameter. -/
def give (reading : Reading) (parameter : Parameter) (text : String) :
    Except UsageFault Reading :=
  if parameter.kind ≠ .texts && reading.has parameter.name then .error .argumentConflict
  else if parameter.kind = .path && text.isEmpty then .error .invalidValue
  else .ok { reading with given := reading.given ++ [(parameter, text)] }

/-- Gives its text to the parameter that was kept back. -/
def settle (reading : Reading) : Except UsageFault Reading :=
  match reading.kept with
  | none => .ok reading
  | some (parameter, some text) => { reading with kept := none }.give parameter text
  | some (_, none) => .error .invalidValue

/-- Reads a parameter that takes nothing. -/
def readFlag (reading : Reading) (parameter : Parameter) : Except UsageFault Reading := do
  let reading ← reading.settle
  match parameter.kind with
  | .help => throw .displayHelp
  | .version => throw .displayVersion
  | _ => reading.give parameter ""

/-- Reads a parameter that takes a text, which may be there already. -/
def readOption (reading : Reading) (parameter : Parameter) (text : Option String) :
    Except UsageFault Reading := do
  let reading ← reading.settle
  match text with
  | some text => reading.give parameter text
  | none => return { reading with kept := some (parameter, none) }

/-- Reads a name, which follows two hyphens, and the text behind it. -/
def readName (parameters : Parameters) (reading : Reading) (name : String)
    (text : Option String) : Except UsageFault Reading :=
  match parameters.named.find? fun parameter => parameter.name = name with
  | none => .error .unknownArgument
  | some parameter =>
    if parameter.takesText then reading.readOption parameter text
    else if text.isSome then .error .tooManyValues
    else reading.readFlag parameter

/-- Reads letters, which follow one hyphen. What follows the letter of an option is its text, an
equals sign before it aside. -/
def readLetters (parameters : Parameters) (reading : Reading) :
    List Char → Except UsageFault Reading
  | [] => .ok reading
  | c :: rest =>
    match parameters.named.find? fun parameter => parameter.letter = some c with
    | none => .error .unknownArgument
    | some parameter =>
      if parameter.takesText then
        let text :=
          match rest with
          | [] => none
          | '=' :: rest => some (String.ofList rest)
          | rest => some (String.ofList rest)
        reading.readOption parameter text
      else do
        let reading ← reading.readFlag parameter
        readLetters parameters reading rest

/-- Reads a text for the next place. -/
def readPlace (reading : Reading) (text : String) : Except UsageFault Reading :=
  match reading.places with
  | [] => .error .unknownArgument
  | place :: places => do
    let reading ← reading.settle
    return { reading with kept := some (place, some text), places }

end Reading

/-- What a word may be. -/
inductive Word where
  /-- Two hyphens alone: all words that follow are texts for places. -/
  | separator
  /-- A name behind two hyphens, and the text behind an equals sign. -/
  | name (name : String) (text : Option String)
  /-- Letters behind a hyphen. -/
  | letters (letters : List Char)
  /-- Any other text. -/
  | plain
  deriving DecidableEq, Repr

/-- What a word is. -/
def Word.ofText (text : String) : Word :=
  match text.toList with
  | ['-', '-'] => .separator
  | '-' :: '-' :: rest =>
    let isName := fun (c : Char) => c != '='
    match rest.dropWhile isName with
    | _ :: value => .name (String.ofList (rest.takeWhile isName)) (some (String.ofList value))
    | [] => .name (String.ofList rest) none
  | '-' :: c :: rest => .letters (c :: rest)
  | _ => .plain

/-- Reads a word that is neither a name nor letters: a text for the option before it, or for the
next place. -/
def Reading.readText (reading : Reading) (text : String) : Except UsageFault Reading :=
  match reading.kept with
  | some (parameter, none) => .ok { reading with kept := some (parameter, some text) }
  | _ => reading.readPlace text

/-- Reads texts for places. -/
def Reading.readPlaces (reading : Reading) : List String → Except UsageFault Reading
  | [] => reading.settle
  | text :: texts => do
    let reading ← reading.readPlace text
    readPlaces reading texts

/-- Reads the words of a command. -/
def Reading.readWords (parameters : Parameters) (reading : Reading) :
    List String → Except UsageFault Reading
  | [] => reading.settle
  | text :: texts => do
    match Word.ofText text with
    | .separator => reading.readPlaces texts
    | .name name value =>
      let reading ← reading.readName parameters name value
      readWords parameters reading texts
    | .letters letters =>
      let reading ← reading.readLetters parameters letters
      readWords parameters reading texts
    | .plain =>
      let reading ← reading.readText text
      readWords parameters reading texts

end Stencil.CommandLine
