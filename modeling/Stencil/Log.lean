/-!
# The log

What happens is told in records, in order. A record has a level, which says how severe it is, and a
channel, which says what was being done.
-/

namespace Stencil

namespace Log

/-- How severe a record is. -/
inductive Level where
  | error
  | warn
  | info
  | debug
  deriving DecidableEq, Repr

namespace Level

/-- The name of a level. -/
def name : Level → String
  | .error => "ERROR"
  | .warn => "WARN"
  | .info => "INFO"
  | .debug => "DEBUG"

/-- How far a level is from the most severe one. -/
def rank : Level → Nat
  | .error => 0
  | .warn => 1
  | .info => 2
  | .debug => 3

/-- Whether a level is at least as severe as another one. -/
def covers (limit level : Level) : Bool :=
  level.rank ≤ limit.rank

end Level

/-- What was being done. -/
inductive Channel where
  /-- The command as a whole. -/
  | command
  /-- Reading a project. -/
  | project
  /-- Reading operations. -/
  | reading
  /-- Checking operations. -/
  | operations
  /-- Running operations. -/
  | execution
  /-- Rendering templates. -/
  | template
  /-- Writing files. -/
  | output
  /-- Generating files. -/
  | generation
  /-- Reformatting files. -/
  | reformatting
  deriving DecidableEq, Repr

/-- The name of a channel. -/
def Channel.name : Channel → String
  | .command => "yaldevtools"
  | .project => "yaldevtools::project"
  | .reading => "yaldevtools::reader"
  | .operations => "yaldevtools::operations"
  | .execution => "yaldevtools::executor"
  | .template => "yaldevtools::template"
  | .output => "yaldevtools::output"
  | .generation => "yaldevtools::generator"
  | .reformatting => "yaldevtools::processor"

/-- Something that happened. -/
structure Record where
  level : Level
  channel : Channel
  text : String
  deriving DecidableEq, Repr

/-- The record with its level. -/
def Record.brief (record : Record) : String :=
  record.level.name ++ " " ++ record.text

end Log

/-- Records in order. -/
abbrev Log := Array Log.Record

end Stencil
