import Stencil.Proofs.Results
import Stencil.Session

/-!
# Runs of tasks

How each of the things that a task may do is run, whatever is done after it.
-/

namespace Stencil.Task

variable {ε ε' α β : Type} {session : Session}

theorem store_run {next : Store → Task ε α} :
    (store >>= next).run.run session = (next session.store).run.run session := by
  rw [bind_run]
  rfl

theorem tell_run {level : Log.Level} {channel : Log.Channel} {text : String}
    {next : Unit → Task ε α} :
    (tell level channel text >>= next).run.run session =
      (next ()).run.run { session with log := session.log.push ⟨level, channel, text⟩ } := by
  rw [bind_run]
  rfl

theorem attempt_run {task : Task ε α} {next : Except ε α → Task ε' β} :
    (task.attempt >>= next).run.run session =
      (next (task.run.run session).1).run.run (task.run.run session).2 := by
  rw [bind_run]
  rfl

theorem adapt_run {task : Task ε α} {change : ε → ε'} :
    (task.adapt change).run.run session =
      ((task.run.run session).1.mapError change, (task.run.run session).2) := by
  rw [ExceptT.run_adapt]
  rfl

variable (replace : Path → String → Store.Change Unit)

theorem replaceFileBy_eq (path : Path) (text : String) (session : Session) :
    (replaceFileBy replace path text).run.run session =
      match (replace path text).run.run session.store with
      | (.ok (), store) =>
        (.ok (), ⟨store, session.log.push ⟨.debug, .output, "Wrote file: " ++ path.text⟩⟩)
      | (.error fault, store) => (.error fault, ⟨store, session.log⟩) := by
  unfold replaceFileBy
  rw [get_run]
  rcases (replace path text).run.run session.store with ⟨_ | _, _⟩ <;> rfl

theorem replaceFileBy_run (path : Path) (text : String) (session : Session) :
    ∃ log, (replaceFileBy replace path text).run.run session =
      (((replace path text).run.run session.store).1,
        ⟨((replace path text).run.run session.store).2, log⟩) := by
  rw [replaceFileBy_eq]
  rcases (replace path text).run.run session.store with ⟨_ | _, _⟩ <;> exact ⟨_, rfl⟩

end Stencil.Task
