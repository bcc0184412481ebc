import Stencil.Proofs.Execution.Visibility
import Stencil.Proofs.Generation

/-!
# The text of a main operation

The text that a main operation makes may be asked for, or a file be made of it. Either runs the
operation, but from other scopes and to another target. A run shows nothing of how names are spread
over scopes, so values that are given for one run do the same as values that are given before
(`run_sees_bindings`), and both ways come to the same: the file is made of the text, and where the
text cannot be made, the file fails for the same reason (`generate_makes_text`).
-/

namespace Stencil.Generation

variable {ε : Type}

open Execution (Executes ExecutesMain runMain shownBy)
open Stencil.Task (store_run)

theorem find?_scope (generation : Generation) (name : String) :
    generation.scope.find? name =
      (generation.values.find? name).or (generation.project.scope.find? name) :=
  Entries.find?_insertAll _ generation.values.distinct name

/-- Values that are given come before all others. -/
theorem find?_scope_withValues (generation : Generation) (values : Scope) (name : String) :
    (generation.withValues values).scope.find? name =
      (values.find? name).or (generation.scope.find? name) := by
  have hvalues : (generation.withValues values).values.find? name =
      (values.find? name).or (generation.values.find? name) :=
    Entries.find?_insertAll _ values.distinct name
  rw [find?_scope, hvalues, find?_scope, Option.or_assoc]
  rfl

/-- Names that are bound for one run are bound in a scope of their own. -/
theorem runBound_run (environment : Execution.Environment) (target : Path) (main : String)
    (base extra : Scope) (log : Log) :
    let (result, state) := (runMain environment target main).run.run
      ⟨⟨base, [extra]⟩, .replace, .empty, log⟩
    (Execution.Run.within do
        Execution.Run.modifyScopes fun scopes =>
          extra.toList.foldl (fun scopes entry => scopes.set entry.1 entry.2) scopes
        runMain environment target main).run.run ⟨.ofScope base, .replace, .empty, log⟩ =
      (result, { state with scopes := state.scopes.pop }) := by
  have hscopes : extra.toList.foldl (fun scopes entry => scopes.set entry.1 entry.2)
      (Scopes.ofScope base).push = ⟨base, [extra]⟩ := Scopes.foldl_set_push (.ofScope base) extra
  rw [Execution.Run.within_run, bind_run, ← hscopes]
  rfl

/-- The text depends on nothing but what the run shows. -/
theorem text_run (generation : Generation) (main : String) (extra : Scope) (session : Session) :
    let shown := shownBy (generation.environment session.store) ⟨main⟩ main
      ⟨⟨generation.scope, [extra]⟩, .replace, .empty, session.log⟩
    (generation.text main extra).run.run session =
      (shown.1.map fun _ => (shown.2.1.find? ⟨main⟩).getD "", ⟨session.store, shown.2.2⟩) := by
  have hbound := runBound_run (generation.environment session.store) ⟨main⟩ main generation.scope
    extra session.log
  unfold text shownBy
  simp only [store_run, runFresh_run]
  rcases hrun : (runMain (generation.environment session.store) ⟨main⟩ main).run.run
    ⟨⟨generation.scope, [extra]⟩, .replace, .empty, session.log⟩ with ⟨result, state⟩
  rw [hrun] at hbound
  dsimp only at hbound
  rw [hbound]
  cases result <;> rfl

/-- Let names mean the same in two stacks of scopes. Then a run has the same result in both, and the
same output, of which the writes are a part, and the same log. So it does in the one scope that all
scopes are flattened to, in which names mean the same; and values that are given for one run do the
same as values that are given before. -/
theorem run_sees_bindings (environment : Execution.Environment) (target : Path) (main : String)
    (mode : Output.Mode) (output : Output) (log : Log) :
    let shown := fun scopes => shownBy environment target main ⟨scopes, mode, output, log⟩
    (∀ scopes scopes' : Scopes, (∀ name, scopes.get? name = scopes'.get? name) →
      shown scopes = shown scopes') ∧
    (∀ scopes : Scopes, (∀ name, scopes.flatten.find? name = scopes.get? name) ∧
      shown (.ofScope scopes.flatten) = shown scopes) ∧
    ∀ (generation : Generation) (extra : Scope),
      generation.text main extra = (generation.withValues extra).text main .empty := by
  intro shown
  have hagree : ∀ scopes scopes' : Scopes, scopes.Agree scopes' → shown scopes = shown scopes' :=
    fun _ _ h => Execution.runMain_agree environment target main h mode output log
  refine ⟨hagree, fun scopes => ⟨scopes.find?_flatten, hagree _ _ scopes.find?_flatten⟩, ?_⟩
  intro generation extra
  funext session
  have hscopes : Scopes.Agree ⟨generation.scope, [extra]⟩
      ⟨(generation.withValues extra).scope, [.empty]⟩ := by
    intro name
    rw [Scopes.get?_cons, Scopes.get?_cons, Entries.find?_empty, Option.none_or]
    exact (find?_scope_withValues generation extra name).symm
  have hshown := Execution.runMain_agree (generation.environment session.store) ⟨main⟩ main hscopes
    .replace .empty session.log
  have htext := text_run generation main extra session
  have htext' := text_run (generation.withValues extra) main .empty session
  rw [hshown] at htext
  exact htext.trans htext'.symm

/-- A name that is bound in an inner scope and in the base scope, and the scope both come to. -/
theorem run_sees_bindings_shadowed :
    let main : Operation := ⟨"main", none, .template "part.txt" [] none []⟩
    let environment : Execution.Environment :=
      ⟨⟨[main], by decide, ["main"], by decide⟩, .empty,
        ⟨⟨"templates"⟩, fun _ => some (.ok "[$name, $other]")⟩⟩
    let scopes : Scopes :=
      ⟨.ofList [("name", .string "outer"), ("other", .null)], [.ofList [("name", .string "inner")]]⟩
    let scopes' : Scopes := .ofScope (.ofList [("name", .string "inner"), ("other", .null)])
    (∀ name, scopes.get? name = scopes'.get? name) ∧
      shownBy environment ⟨"out"⟩ "main" ⟨scopes, .replace, .empty, #[]⟩ =
        shownBy environment ⟨"out"⟩ "main" ⟨scopes', .replace, .empty, #[]⟩ := by
  intro main environment scopes scopes'
  have hscopes : ∀ name, scopes.get? name = scopes'.get? name :=
    fun name => (scopes.find?_flatten name).symm
  exact ⟨hscopes,
    (run_sees_bindings environment ⟨"out"⟩ "main" .replace .empty #[]).1 scopes scopes' hscopes⟩

/-! ## The file that is made of the text -/

/-- The text is what the operation renders. -/
theorem text_cases (generation : Generation) (main : String) (session : Session) :
    ∃ trace result log, ExecutesMain (generation.environment session.store)
        (.ofScope generation.scope) main trace result ∧
      (generation.text main .empty).run.run session =
        (result.map fun _ => String.join trace.texts, ⟨session.store, log⟩) := by
  let environment := generation.environment session.store
  have hscopes : Scopes.Agree ⟨generation.scope, [.empty]⟩ (.ofScope generation.scope) :=
    (Scopes.ofScope generation.scope).get?_push
  obtain ⟨trace, result, after, hexec, hrun, honly⟩ :=
    Execution.runMain_only environment ⟨main⟩ main (.ofScope generation.scope) session.log
  have hshown : shownBy environment ⟨main⟩ main
      ⟨⟨generation.scope, [.empty]⟩, .replace, .empty, session.log⟩ =
        (result, after.output, after.log) := by
    rw [Execution.runMain_agree environment ⟨main⟩ main hscopes, shownBy, hrun]
  have htext := text_run generation main .empty session
  rw [hshown] at htext
  refine ⟨trace, result, after.log, hexec, htext.trans ?_⟩
  have hfound : (after.output.find? ⟨main⟩).getD "" = String.join trace.texts := by
    rw [honly.find?]
    split
    · next htexts => rw [htexts]; rfl
    · rfl
  rw [hfound]

theorem finished_eq (generation : Generation) (path : Path) (text : String) :
    generation.finished path text =
      if generation.formats = true ∧ (path.extension? = some "c" ∨ path.extension? = some "h") then
        Source.formatText text
      else text := by
  simp [finished, isSource]

/-- A main operation is asked for its text, and from the same session its file is made, which gives
the report and leaves the session `after`. If the text fails, the file fails for the same reason,
and nothing is written. Otherwise the text is what the operation renders. If it renders nothing, no
file is made. If the file cannot be written, this is reported. Otherwise it is made at the place
where its path leads, and holds the text, formatted if this is asked for and the path is that of a
source file; and so the path reads, unless the way to it goes along a link that was at the
place. -/
def MakesText (replace : Path → String → Store.Change Unit) (generation : Generation)
    (directory : Path) (main : String) (session : Session) (report : Report) (after : Session) :
    Prop :=
  let target := directory.join ⟨main⟩
  match ((generation.text main .empty).run.run session).1 with
  | .error fault =>
    after.store = session.store ∧ report.generated = [] ∧
      report.failed.map (fun failed => (failed.1, failed.2.message)) = [(main, fault.message)]
  | .ok text =>
    let final :=
      if generation.formats = true ∧
          (target.extension? = some "c" ∨ target.extension? = some "h") then
        Source.formatText text
      else text
    ∃ trace, ExecutesMain (generation.environment session.store) (.ofScope generation.scope)
        main trace (.ok ()) ∧
      text = String.join trace.texts ∧
      if trace.texts = [] then text = "" ∧ report = ⟨[], []⟩ ∧ after.store = session.store
      else
        match ((replace target final).run.run session.store).1 with
        | .ok () => report = ⟨[target], []⟩ ∧
          Handling.Writes ⟨main, .generated target, session.store, after.store⟩ target final
        | .error fault => report = ⟨[], [(main, .write fault)]⟩

theorem generateBy_makes_text {replace : Path → String → Store.Change Unit}
    (hputs : Store.Puts replace) (generation : Generation) (directory : Path) (main : String)
    (session : Session) :
    ∃ report after,
      (generation.generateBy replace directory [main] : Task ε Report).run.run session =
        (.ok report, after) ∧
      MakesText replace generation directory main session report after := by
  let target := directory.join ⟨main⟩
  obtain ⟨trace, result, log, hexec, htext⟩ := text_cases generation main session
  obtain ⟨trace', result', log', hexec', hfile⟩ :=
    generateFileBy_cases replace generation directory main session
  obtain ⟨rfl, rfl⟩ := hexec.unique hexec'
  obtain ⟨outcome, after, log'', hfile', trace', result', hexec', hisolated⟩ :=
    generateFileBy_isolated hputs generation directory main session
  obtain ⟨rfl, rfl⟩ := hexec.unique hexec'
  obtain ⟨logged, hcons⟩ := @generateBy_cons_run ε _ _ _ _ _ _ _ _ [] hfile'
  refine ⟨_, _, hcons _ _ rfl, ?_⟩
  rw [hfile] at hfile'
  rw [MakesText, htext]
  cases result with
  | error fault =>
    cases outcome with
    | failed fault' =>
      cases hfile'
      exact ⟨rfl, rfl, rfl⟩
    | generated | silent => cases hfile'
  | ok =>
    refine ⟨trace, hexec, rfl, ?_⟩
    by_cases htexts : trace.texts = []
    · simp only [if_pos htexts] at hfile'
      rw [if_pos htexts]
      cases outcome with
      | silent =>
        cases hfile'
        exact ⟨by rw [htexts]; rfl, rfl, rfl⟩
      | generated | failed => cases hfile'
    · simp only [if_neg htexts] at hfile'
      rw [if_neg htexts, ← finished_eq]
      rcases hreplace : (replace target
          (generation.finished target (String.join trace.texts))).run.run session.store with
        ⟨fault | _, written⟩
      · rw [hreplace] at hfile'
        cases outcome with
        | failed fault' =>
          cases hfile'
          rfl
        | generated | silent => cases hfile'
      · rw [hreplace] at hfile'
        cases outcome with
        | generated path =>
          cases hfile'
          exact ⟨rfl, hisolated.2.2.2⟩
        | failed | silent => cases hfile'

/-- Whether a main operation is asked for its text or its file is made comes to the same. -/
theorem generate_makes_text (generation : Generation) (directory : Path) (main : String)
    (session : Session) :
    ∃ report after,
      (generation.generate directory [main] : Task ε Report).run.run session =
        (.ok report, after) ∧
      MakesText Store.replace generation directory main session report after :=
  generateBy_makes_text Store.puts_replace generation directory main session

theorem text_relinking :
    ((relinking.text "x/../x" .empty).run.run ⟨linked, #[]⟩).1 = .ok "hello" := by
  obtain ⟨trace, hexec, htexts⟩ := executesMain_relinking
  obtain ⟨trace', result, log, hexec', htext⟩ := text_cases relinking "x/../x" ⟨linked, #[]⟩
  obtain ⟨rfl, rfl⟩ := hexec.unique hexec'
  have hjoin : String.join ["hello"] = "hello" := by decide +kernel
  rw [htext, htexts, hjoin]
  rfl

theorem generateFile_relinking :
    ∃ log, (relinking.generateFile ⟨"out"⟩ "x/../x").run.run ⟨linked, #[]⟩ =
      (.ok (some ⟨"out/x/../x"⟩), ⟨linked.put ["out", "x"] (.file "hello".toUTF8), log⟩) := by
  obtain ⟨trace, hexec, htexts⟩ := executesMain_relinking
  obtain ⟨trace', result, log, hexec', hfile⟩ :=
    generateFileBy_cases Store.replace relinking ⟨"out"⟩ "x/../x" ⟨linked, #[]⟩
  obtain ⟨rfl, rfl⟩ := hexec.unique hexec'
  have htarget : (Path.mk "out").join ⟨"x/../x"⟩ = ⟨"out/x/../x"⟩ := by decide +kernel
  have hjoin : String.join ["hello"] = "hello" := by decide +kernel
  have hfinished : relinking.finished ⟨"out/x/../x"⟩ "hello" = "hello" := rfl
  simp only [htexts, htarget, hjoin, hfinished, replace_linked] at hfile
  exact ⟨log, hfile⟩

/-- The text can be asked for, and its file is made and reported, but the path of the file does not
lead to it: the file has taken the place of a link that the path goes along. -/
theorem text_behind_replaced_link :
    let session : Session := ⟨linked, #[]⟩
    let run := (relinking.generate ⟨"out"⟩ ["x/../x"] : Task Unit Report).run.run session
    ((relinking.text "x/../x" .empty).run.run session).1 = .ok "hello" ∧
      run.1 = .ok ⟨[⟨"out/x/../x"⟩], []⟩ ∧
      run.2.store.read ⟨"out/x/../x"⟩ = .error .notADirectory := by
  intro session run
  obtain ⟨log, hfile⟩ := generateFile_relinking
  obtain ⟨log', hgenerate⟩ :=
    @generateBy_cons_run Unit _ _ _ _ _ (.generated ⟨"out/x/../x"⟩) _ _ [] hfile
  have hrun : run = _ := hgenerate _ _ rfl
  rw [hrun]
  exact ⟨text_relinking, rfl, read_replaced_link⟩

end Stencil.Generation
