import Stencil.Log
import Stencil.Store

/-!
# Sessions

A command works on a store and tells in the log what it does.
-/

namespace Stencil

/-- What a command works on. -/
structure Session where
  store : Store
  log : Log

/-- What a command does: it may fail, and what it has changed stays changed. -/
abbrev Task (ε : Type) := ExceptT ε (StateM Session)

namespace Task

variable {ε : Type}

/-- The store. -/
def store : Task ε Store := do
  return (← get).store

/-- Tells something in the log. -/
def tell (level : Log.Level) (channel : Log.Channel) (text : String) : Task ε Unit :=
  modify fun session => { session with log := session.log.push ⟨level, channel, text⟩ }

/-- Does something and goes on, also after a fault. -/
def attempt (task : Task ε α) : Task ε' (Except ε α) :=
  ExceptT.lift task.run

/-- Does what `replace` does to put a file with the text where a path leads. -/
def replaceFileBy (replace : Path → String → Store.Change Unit) (path : Path) (text : String) :
    Task Store.Fault Unit := do
  let session ← get
  let (result, store) := (replace path text).run.run session.store
  set { session with store }
  match result with
  | .ok () => tell .debug .output ("Wrote file: " ++ path.text)
  | .error fault => throw fault

/-- Puts a file with the text where a path leads. -/
def replaceFile : Path → String → Task Store.Fault Unit :=
  replaceFileBy Store.replace

end Task

end Stencil
