import Stencil.CommandLine
import Stencil.Reformatting
import Stencil.Text.Line

/-!
# Following a command line

An invocation is run on a session. It ends with a status, which is zero if all went well, and
perhaps with a complaint; the records of the log that are severe enough are shown before it.
-/

namespace Stencil.CommandLine

/-- How an invocation ends. -/
structure Outcome where
  status : Nat
  complaint : Option String
  deriving DecidableEq, Repr

/-- Makes files, and tells how many could be made. -/
def runGenerate (sources : Generation.Sources) (output : Path) (mains : List String) :
    Task Generation.LoadFailure Unit := do
  let generation ← Generation.load sources
  let report ← generation.generate output mains
  report.failed.forM fun (main, fault) =>
    Task.tell .warn .command ("No output for: " ++ main ++ " (" ++ fault.message ++ ")")
  Task.tell .info .command
    ("Generated " ++ toString report.generated.length ++ " of " ++ toString mains.length
      ++ " files in " ++ output.text ++ ".")

/-- Reformats or checks files, tells how many, and says whether nothing is left to do. -/
def runFormat (path : Path) (patterns : List String) (checks : Bool) : Task Failure Bool := do
  let reformatting ← (Reformatting.ofPatterns patterns checks : Except Failure _)
  let report ← reformatting.reformat path
  Task.tell .info .command
    ("Checked " ++ toString report.checked ++ " files, " ++ toString report.changed.length
      ++ " changed, " ++ toString report.failed.length ++ " failed.")
  return report.failed.isEmpty && !(checks && !report.changed.isEmpty)

/-- Does what a command asks for. -/
def Command.run : Command → StateM Session Outcome
  | .generate sources output mains => do
    match ← (runGenerate sources output mains).run with
    | .ok () => return ⟨0, none⟩
    | .error failure => return ⟨1, some (failure.stage.heading ++ failure.failure.report)⟩
  | .format path patterns checks => do
    match ← (runFormat path patterns checks).run with
    | .ok true => return ⟨0, none⟩
    | .ok false => return ⟨1, none⟩
    | .error failure => return ⟨1, some failure.report⟩

/-- The level up to which records are shown. -/
def Invocation.limit (invocation : Invocation) : Log.Level :=
  if invocation.verbose then .debug else .info

/-- A record as it is shown: later lines of its text stand four columns to the right. -/
def shownRecord (record : Log.Record) : List Char :=
  let level := record.level.name.toList
  let pieces := Text.cut '\n' record.text.toList
  let indent := '\n' :: List.replicate 4 ' '
  '[' :: level ++ List.replicate (5 - level.length) ' ' ++ ' ' :: record.channel.name.toList
    ++ ']' :: ' ' :: Text.join indent pieces

/-- The lines that are shown while an invocation is run, and the status with which it ends. -/
def Invocation.run (invocation : Invocation) (store : Store) : Nat × List String × Store :=
  let (outcome, session) := invocation.command.run.run ⟨store, #[]⟩
  let records := session.log.toList.filter fun record => invocation.limit.covers record.level
  let shown := records.map shownRecord ++ (outcome.complaint.map String.toList).toList
  let lines := Text.lines (shown.flatMap fun text => text ++ ['\n'])
  (outcome.status, lines.map String.ofList, session.store)

end Stencil.CommandLine
