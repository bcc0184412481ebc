import Stencil.CommandLine.Usage
import Stencil.Loading
import Stencil.Path

/-!
# The command line

The first word that is no flag names the command: `generate` makes files from operations, `format`
reformats source files, and `help` tells about either. What is read is an invocation.
-/

namespace Stencil

namespace CommandLine

/-- What is to be done. -/
inductive Command where
  /-- Makes the files of main operations within a directory. -/
  | generate (sources : Generation.Sources) (output : Path) (mains : List String)
  /-- Reformats or checks the files that a path leads to. -/
  | format (path : Path) (patterns : List String) (checks : Bool)

/-- What is to be done, and whether everything is told about it. -/
structure Invocation where
  verbose : Bool
  command : Command

/-- The main operation that is run if none is given. -/
def defaultMain : String := "main"

/-- The flag that all is told. -/
def verbose : Parameter := { name := "verbose", letter := some 'v', kind := .flag }

/-- The flag that asks for help. -/
def help : Parameter := { name := "help", letter := some 'h', kind := .help }

/-- The parameters before a command. -/
def common : Parameters where
  named := [verbose, help, { name := "version", letter := some 'V', kind := .version }]
  places := []

/-- The parameters of `generate`. -/
def generate : Parameters where
  named :=
    [verbose, help,
      { name := "output", letter := some 'o', kind := .path },
      { name := "templates-path", kind := .path },
      { name := "main", kind := .texts },
      { name := "project", kind := .path },
      { name := "context", kind := .path },
      { name := "define", letter := some 'D', kind := .texts },
      { name := "format", kind := .flag }]
  places := [{ name := "operations", kind := .path }]

/-- The parameters of `format`. -/
def format : Parameters where
  named :=
    [verbose, help,
      { name := "pattern", kind := .texts },
      { name := "check", kind := .flag }]
  places := [{ name := "path", kind := .path }]

/-- The path that was given to a parameter. -/
def Reading.path? (reading : Reading) (name : String) : Option Path :=
  (reading.texts name).head?.map Path.mk

/-- The path that has to be given to a parameter. -/
def Reading.path (reading : Reading) (name : String) : Except UsageFault Path :=
  match reading.path? name with
  | some path => .ok path
  | none => .error .missingRequiredArgument

/-- Reads the words after `generate`. -/
def readGenerate (words : List String) : Except UsageFault Invocation := do
  let reading ← (Reading.start generate).readWords generate words
  let mains := reading.texts "main"
  let sources : Generation.Sources := {
    operations := ← reading.path "operations"
    templates := ← reading.path "templates-path"
    project := reading.path? "project"
    context := reading.path? "context"
    definitions := reading.texts "define"
    formats := reading.has "format" }
  let output ← reading.path "output"
  return {
    verbose := reading.has "verbose"
    command := .generate sources output (if mains.isEmpty then [defaultMain] else mains) }

/-- Reads the words after `format`. -/
def readFormat (words : List String) : Except UsageFault Invocation := do
  let reading ← (Reading.start format).readWords format words
  let path ← reading.path "path"
  return {
    verbose := reading.has "verbose"
    command := .format path (reading.texts "pattern") (reading.has "check") }

/-- The names of commands. -/
def commandNames : List String := ["generate", "format", "help"]

/-- Why `help` is not followed, which it never is: it shows help. -/
def helpFault : List String → UsageFault
  | [] => .displayHelp
  | [word] => if commandNames.contains word then .displayHelp else .invalidSubcommand
  | _ => .invalidSubcommand

/-- Why a command line without a command is not followed. -/
def endFault (reading : Reading) : UsageFault :=
  if reading.given.isEmpty then .displayHelpOnMissingArgument else .missingSubcommand

/-- Reads the words of a command line. -/
def readFrom (reading : Reading) : List String → Except UsageFault Invocation
  | [] => .error (endFault reading)
  | word :: words =>
    let withCommon (result : Except UsageFault Invocation) : Except UsageFault Invocation :=
      result.map fun invocation =>
        { invocation with verbose := invocation.verbose || reading.has verbose.name }
    if word = "generate" then withCommon (readGenerate words)
    else if word = "format" then withCommon (readFormat words)
    else if word = "help" then .error (helpFault words)
    else
      match Word.ofText word with
      | .separator =>
        match words with
        | [] => .error (endFault reading)
        | word :: _ =>
          .error (if commandNames.contains word then .unknownArgument else .invalidSubcommand)
      | .name name value => do
        let reading ← reading.readName common name value
        readFrom reading words
      | .letters letters => do
        let reading ← reading.readLetters common letters
        readFrom reading words
      | .plain => .error .invalidSubcommand

/-- What a command line asks for. -/
def read (words : List String) : Except UsageFault Invocation :=
  readFrom (Reading.start common) words

end CommandLine

end Stencil
