import Stencil.Proofs.Execution.Effect

/-!
# A run is made of the runs of its parts

What an operation leaves behind depends on the operations it refers to only through what each of
them leaves behind when it is run on its own, as the main operation and into an output of its own.
So a group leaves what its operations leave in turn, a sequence what its operations leave for each
item in turn, and a selection or a fallback what the chosen operation leaves (`outcome_composes`).
All rests on one relation, `Run.Leaves`, which has a rule for each way in which runs are built; that
an operation stands in it is an induction on its rank (`runOperation_leaves`).

From the same relation: a run puts the scopes back as they were, whether it fails or not
(`runMain_scopes`).
-/

namespace Stencil.Execution

/-- What a run leaves behind: whether it succeeds, and the text that it wrote. -/
structure Outcome where
  result : Except Fault Unit
  text : String

namespace Outcome

/-- A run that succeeds and writes nothing. -/
def done : Outcome := ⟨.ok (), ""⟩

/-- What two runs leave behind. The second takes place only if the first succeeds. -/
def andThen (first second : Outcome) : Outcome :=
  match first.result with
  | .ok () => ⟨second.result, first.text ++ second.text⟩
  | .error _ => first

/-- What runs leave behind that take place in turn, up to the first that fails. -/
def inTurn : List Outcome → Outcome
  | [] => done
  | first :: rest => first.andThen (inTurn rest)

@[simp] theorem done_andThen (outcome : Outcome) : done.andThen outcome = outcome := by
  simp [andThen, done]

@[simp] theorem andThen_done (outcome : Outcome) : outcome.andThen done = outcome := by
  obtain ⟨_ | _, text⟩ := outcome <;> simp [andThen, done]

theorem andThen_assoc (first second third : Outcome) :
    (first.andThen second).andThen third = first.andThen (second.andThen third) := by
  obtain ⟨_ | _, text⟩ := first
  · rfl
  · obtain ⟨_ | _, text'⟩ := second <;> simp [andThen, String.append_assoc]

theorem inTurn_append (first second : List Outcome) :
    inTurn (first ++ second) = (inTurn first).andThen (inTurn second) := by
  induction first with
  | nil => rw [List.nil_append, inTurn, done_andThen]
  | cons outcome rest ih => rw [List.cons_append, inTurn, ih, inTurn, andThen_assoc]

theorem inTurn_flatMap {α : Type} (parts : α → List Outcome) (items : List α) :
    inTurn (items.flatMap parts) = inTurn (items.map fun item => inTurn (parts item)) := by
  induction items with
  | nil => rfl
  | cons item items ih => rw [List.flatMap_cons, inTurn_append, ih, List.map_cons, inTurn]

theorem map_result (outcome : Outcome) : (outcome.result.map fun _ => ()) = outcome.result := by
  cases outcome.result <;> rfl

/-- The whole is its parts one after the other. If they all succeed, its text is the concatenation
of their texts; otherwise it ends with the first that fails, and with its fault. -/
structure Joins (whole : Outcome) (parts : List Outcome) : Prop where
  of_ok : (∀ part ∈ parts, part.result = .ok ()) →
    whole = ⟨.ok (), String.join (parts.map text)⟩
  of_error : ∀ before failed after fault, parts = before ++ failed :: after →
    (∀ part ∈ before, part.result = .ok ()) → failed.result = .error fault →
      whole = ⟨.error fault, String.join ((before ++ [failed]).map text)⟩

theorem join_cons (text : String) (texts : List String) :
    String.join (text :: texts) = text ++ String.join texts := by
  apply String.toList_injective
  simp

theorem inTurn_of_ok {parts : List Outcome} (h : ∀ part ∈ parts, part.result = .ok ()) :
    inTurn parts = ⟨.ok (), String.join (parts.map text)⟩ := by
  induction parts with
  | nil => rfl
  | cons part parts ih =>
    rw [inTurn, ih fun part hpart => h part (List.mem_cons_of_mem _ hpart), List.map_cons,
      join_cons, andThen, h part List.mem_cons_self]

theorem joins_inTurn (parts : List Outcome) : (inTurn parts).Joins parts := by
  refine ⟨inTurn_of_ok, ?_⟩
  rintro before failed after fault rfl hbefore hfailed
  rw [inTurn_append, inTurn_of_ok hbefore, inTurn]
  simp only [andThen, hfailed, List.map_append, List.map_singleton]
  congr 1
  apply String.toList_injective
  simp

end Outcome

/-! ## What a run leaves behind -/

namespace Run

variable {α β : Type} {target : Path} {scopes : Scopes}

/-- In the scopes the action leaves the outcome behind, and its value unless it fails. -/
def Leaves (target : Path) (action : Run α) (scopes : Scopes) (value : α) (outcome : Outcome) :
    Prop :=
  ∃ events, Yields target action scopes (outcome.result.map fun _ => value) events ∧
    Event.text events = outcome.text

namespace Leaves

theorem of_yields {action : Run Unit} {outcome : Outcome} {events : List Event}
    (hyields : Yields target action scopes outcome.result events)
    (htext : Event.text events = outcome.text) : Leaves target action scopes () outcome :=
  ⟨events, outcome.map_result.symm ▸ hyields, htext⟩

theorem pure (value : α) : Leaves target (Pure.pure value) scopes value .done :=
  ⟨[], .pure value, rfl⟩

theorem throw (fault : Fault) (value : α) :
    Leaves target (MonadExcept.throw fault) scopes value ⟨.error fault, ""⟩ :=
  ⟨[], .throw fault, rfl⟩

theorem tell (level : Log.Level) (channel : Log.Channel) (text : String) :
    Leaves target (Run.tell level channel text) scopes () .done :=
  ⟨_, .tell level channel text, rfl⟩

theorem write (text : String) : Leaves target (Run.write target text) scopes () ⟨.ok (), text⟩ :=
  ⟨_, .write text, by simp [Event.text]⟩

theorem scopes_done : Leaves target Run.scopes scopes scopes .done :=
  ⟨_, .scopes_ok, rfl⟩

theorem bind {action : Run α} {next : α → Run β} {value : α} {value' : β} {first second : Outcome}
    (haction : Leaves target action scopes value first)
    (hnext : Leaves target (next value) scopes value' second) :
    Leaves target (action >>= next) scopes value' (first.andThen second) := by
  obtain ⟨events, hyields, htext⟩ := haction
  obtain ⟨events', hyields', htext'⟩ := hnext
  obtain ⟨result, text⟩ := first
  cases result with
  | error fault => exact ⟨events, hyields.bind_error, htext⟩
  | ok =>
    refine ⟨events ++ events', hyields.bind_ok hyields', ?_⟩
    rw [Event.text_append, htext, htext']
    rfl

/-- After something that leaves nothing behind, the rest leaves what the whole does. -/
theorem bind_done {action : Run α} {next : α → Run β} {value : α} {value' : β} {outcome : Outcome}
    (haction : Leaves target action scopes value .done)
    (hnext : Leaves target (next value) scopes value' outcome) :
    Leaves target (action >>= next) scopes value' outcome := by
  simpa using haction.bind hnext

/-- After a fault nothing more takes place. -/
theorem bind_error {action : Run α} {next : α → Run β} {value : α} {value' : β} {fault : Fault}
    {text : String} (haction : Leaves target action scopes value ⟨.error fault, text⟩) :
    Leaves target (action >>= next) scopes value' ⟨.error fault, text⟩ := by
  obtain ⟨events, hyields, htext⟩ := haction
  exact ⟨events, hyields.bind_error, htext⟩

theorem discard {action : Run α} {value : α} {outcome : Outcome}
    (h : Leaves target action scopes value outcome) :
    Leaves target (Functor.discard action) scopes () outcome := by
  have heq : Functor.discard action = action >>= fun _ => Pure.pure () := by
    rw [bind_pure_comp]
    rfl
  have hbind : Leaves target (action >>= fun _ => Pure.pure ()) scopes () (outcome.andThen .done) :=
    h.bind (.pure ())
  rwa [Outcome.andThen_done, ← heq] at hbind

theorem within {action : Run α} {change : Scopes → Scopes} {value : α} {outcome : Outcome}
    (hchange : (change scopes.push).pop = scopes)
    (h : Leaves target action (change scopes.push) value outcome) :
    Leaves target (Run.within (Run.modifyScopes change >>= fun _ => action)) scopes value
      outcome := by
  obtain ⟨events, hyields, htext⟩ := h
  exact ⟨events, .within hchange hyields, htext⟩

theorem forM {items : List α} {action : α → Run Unit} {own : α → Outcome}
    (h : ∀ item ∈ items, Leaves target (action item) scopes () (own item)) :
    Leaves target (items.forM action) scopes () (.inTurn (items.map own)) := by
  induction items with
  | nil => exact .pure ()
  | cons item items ih =>
    have hrest := ih fun other hmem => h other (List.mem_cons_of_mem _ hmem)
    exact (h item List.mem_cons_self).bind hrest

end Leaves

end Run

/-! ## Composing what operations leave behind -/

/-- What running `main` leaves behind, on its own and with no text in the output. -/
def outcome (environment : Environment) (target : Path) (scopes : Scopes) (main : String) :
    Outcome :=
  let (result, state) :=
    (runMain environment target main).run.run ⟨scopes, .replace, .empty, #[]⟩
  ⟨result, (state.output.find? target).getD ""⟩

/-- Whether there is an operation of the identifier. -/
def Environment.defines (environment : Environment) (identifier : String) : Bool :=
  (environment.operations.find? identifier).isSome

/-- What an operation that may be missing leaves behind. -/
def outcomeOfReference (environment : Environment) (target : Path) (scopes : Scopes)
    (identifier : String) : Outcome :=
  if environment.defines identifier then outcome environment target scopes identifier else .done

/-- What an operation leaves behind that is run instead of another one, if there is any. -/
def outcomeOfChoice (environment : Environment) (target : Path) (scopes : Scopes) :
    Option String → Outcome
  | some identifier => outcomeOfReference environment target scopes identifier
  | none => .done

/-- Where the file of a template is looked for. -/
def Environment.templatePath (environment : Environment) (file : String) : Path :=
  environment.templates.directory.join ⟨file⟩

/-- What rendering a template leaves behind. -/
def outcomeOfTemplate (scopes : Scopes) (path : Path) (content : Except Store.Fault String)
    (placeholders : List String) (modifiers : List Modifier) : Outcome :=
  match content with
  | .error fault => ⟨.error (.unreadable fault), ""⟩
  | .ok template =>
    match Template.render (scopes.push.declare placeholders).get? template with
    | .ok text => ⟨.ok (), String.ofList (Modifier.applyAll modifiers text.toList)⟩
    | .error fault => ⟨.error (.template path fault), ""⟩

/-- What an operation leaves behind, composed of what the operations that it refers to do. -/
def composed (environment : Environment) (target : Path) (scopes : Scopes) :
    Operation.Kind → Outcome
  | .group operations =>
    .inTurn <| (operations.takeWhile environment.defines).map (outcome environment target scopes)
  | .selection input options default =>
    outcomeOfChoice environment target scopes <|
      selected? options default ((scopes.get? input).bind Value.text?)
  | .sequence input operations placeholder fallback =>
    match elements? (scopes.get? input) with
    | none => .done
    | some [] => outcomeOfChoice environment target scopes fallback
    | some elements =>
      .inTurn <| elements.flatMap fun element =>
        (operations.filter environment.defines).map
          (outcome environment target (scopes.push.set placeholder element))
  | .template file placeholders fallback modifiers =>
    match environment.templates.read? (environment.templatePath file) with
    | none =>
      match fallback with
      | some reference => outcomeOfReference environment target scopes reference
      | none => ⟨.error (.missingTemplate (environment.templatePath file)), ""⟩
    | some content =>
      outcomeOfTemplate scopes (environment.templatePath file) content placeholders modifiers

section perform

variable {environment : Environment} {target : Path} {scopes : Scopes}

/-- Each operation that `references` names leaves its own outcome behind, in all scopes. -/
def ReferencesLeave (environment : Environment) (target : Path) (references : List String)
    (run : (reference : String) → reference ∈ references → Run Bool) : Prop :=
  ∀ scopes reference (hmem : reference ∈ references),
    Run.Leaves target (run reference hmem) scopes (environment.defines reference)
      (outcomeOfReference environment target scopes reference)

theorem runUntilMissing_leaves {references : List String}
    {run : (reference : String) → reference ∈ references → Run Bool}
    (h : ReferencesLeave environment target references run) :
    Run.Leaves target (runUntilMissing references run) scopes ()
      (.inTurn ((references.takeWhile environment.defines).map
        (outcome environment target scopes))) := by
  induction references with
  | nil => exact .pure ()
  | cons reference rest ih =>
    have hfirst := h scopes reference List.mem_cons_self
    unfold runUntilMissing
    cases hdefined : environment.defines reference with
    | true =>
      simp only [outcomeOfReference, hdefined, if_true] at hfirst
      rw [List.takeWhile_cons_of_pos hdefined]
      refine hfirst.bind ?_
      rw [if_pos rfl]
      exact ih fun scopes other hmem => h scopes other (List.mem_cons_of_mem _ hmem)
    | false =>
      simp only [outcomeOfReference, hdefined] at hfirst
      rw [List.takeWhile_cons_of_neg (by simp [hdefined])]
      refine hfirst.bind_done ?_
      exact .pure ()

theorem runAll_leaves {references : List String}
    {run : (reference : String) → reference ∈ references → Run Bool}
    (h : ReferencesLeave environment target references run) :
    Run.Leaves target (runAll references run) scopes ()
      (.inTurn ((references.filter environment.defines).map
        (outcome environment target scopes))) := by
  induction references with
  | nil => exact .pure ()
  | cons reference rest ih =>
    have hfirst := (h scopes reference List.mem_cons_self).discard
    have hrest := ih fun scopes other hmem => h scopes other (List.mem_cons_of_mem _ hmem)
    unfold runAll
    cases hdefined : environment.defines reference with
    | true =>
      simp only [outcomeOfReference, hdefined, if_true] at hfirst
      rw [List.filter_cons_of_pos hdefined]
      exact hfirst.bind hrest
    | false =>
      simp only [outcomeOfReference, hdefined] at hfirst
      rw [List.filter_cons_of_neg (by simp [hdefined])]
      exact hfirst.bind_done hrest

/-- Tells that a template is rendered. -/
def Event.rendering (path : Path) : Event :=
  .told ⟨.debug, .template, "Rendering template: " ++ path.text⟩

/-- The events of rendering a template. -/
def eventsOfTemplate (scopes : Scopes) (path : Path) (content : Except Store.Fault String)
    (placeholders : List String) (modifiers : List Modifier) : List Event :=
  .rendering path ::
    match outcomeOfTemplate scopes path content placeholders modifiers with
    | ⟨.ok (), text⟩ => [.wrote text]
    | ⟨.error _, _⟩ => []

theorem text_eventsOfTemplate (path : Path) (content : Except Store.Fault String)
    (placeholders : List String) (modifiers : List Modifier) :
    Event.text (eventsOfTemplate scopes path content placeholders modifiers) =
      (outcomeOfTemplate scopes path content placeholders modifiers).text := by
  unfold eventsOfTemplate outcomeOfTemplate
  cases content with
  | error fault => rfl
  | ok template =>
    dsimp only
    cases Template.render (scopes.push.declare placeholders).get? template with
    | error fault => rfl
    | ok text => simp [Event.text, Event.rendering]

theorem renderTemplate_yields (path : Path) (content : Except Store.Fault String)
    (placeholders : List String) (modifiers : List Modifier) :
    Run.Yields target
      (Run.within (renderTemplate path content placeholders) >>= fun text =>
        Run.write target (String.ofList (Modifier.applyAll modifiers text.toList)))
      scopes (outcomeOfTemplate scopes path content placeholders modifiers).result
      (eventsOfTemplate scopes path content placeholders modifiers) := by
  have hpop : (scopes.push.declare placeholders).pop = scopes := Scopes.pop_declare_push _ _
  unfold eventsOfTemplate
  cases content with
  | error fault =>
    have hrender : Run.Yields target
        (Run.within (renderTemplate path (.error fault) placeholders)) scopes
        (.error (.unreadable fault)) [.rendering path] :=
      .within hpop (.bind_ok (.tell _ _ _) (.throw _))
    exact hrender.bind_error
  | ok template =>
    dsimp only [outcomeOfTemplate]
    cases hfaces : Template.render (scopes.push.declare placeholders).get? template with
    | error fault =>
      have hrender : Run.Yields target
          (Run.within (renderTemplate path (.ok template) placeholders)) scopes
          (.error (.template path fault))
          [.rendering path] := by
        refine .within hpop (.bind_ok (.tell _ _ _) (.bind_ok .scopes_ok ?_))
        rw [hfaces]
        exact .throw _
      exact hrender.bind_error
    | ok text =>
      have hrender : Run.Yields target
          (Run.within (renderTemplate path (.ok template) placeholders)) scopes (.ok text)
          [.rendering path] := by
        refine .within hpop (.bind_ok (.tell _ _ _) (.bind_ok .scopes_ok ?_))
        rw [hfaces]
        exact .pure text
      exact hrender.bind_ok (.write _)

theorem renderTemplate_leaves (path : Path) (content : Except Store.Fault String)
    (placeholders : List String) (modifiers : List Modifier) :
    Run.Leaves target
      (Run.within (renderTemplate path content placeholders) >>= fun text =>
        Run.write target (String.ofList (Modifier.applyAll modifiers text.toList)))
      scopes () (outcomeOfTemplate scopes path content placeholders modifiers) :=
  .of_yields (renderTemplate_yields _ _ _ _) (text_eventsOfTemplate _ _ _ _)

/-- An operation that is run in place of another one leaves its own outcome behind. -/
theorem choice_leaves {references : List String}
    {run : (reference : String) → reference ∈ references → Run Bool}
    (h : ReferencesLeave environment target references run) {reference : String}
    (hmem : reference ∈ references) :
    Run.Leaves target (discard (run reference hmem)) scopes ()
      (outcomeOfReference environment target scopes reference) :=
  (h scopes reference hmem).discard

theorem perform_leaves (identifier : String) (kind : Operation.Kind)
    {run : (reference : String) → reference ∈ kind.references → Run Bool}
    (h : ReferencesLeave environment target kind.references run) :
    Run.Leaves target (perform environment target identifier kind run) scopes ()
      (composed environment target scopes kind) := by
  cases kind with
  | group operations => exact runUntilMissing_leaves h
  | selection input options default =>
    refine Run.Leaves.scopes_done.bind_done ?_
    dsimp only
    split
    · next reference hselected =>
      simp only [composed, hselected, outcomeOfChoice]
      exact choice_leaves h _
    · next hselected =>
      simp only [composed, hselected, outcomeOfChoice]
      exact .tell ..
  | sequence input operations placeholder fallback =>
    refine Run.Leaves.scopes_done.bind_done ?_
    dsimp only
    split
    · next hnone =>
      simp only [composed, hnone]
      exact .tell ..
    · next hempty =>
      simp only [composed, hempty]
      split
      · exact choice_leaves h _
      · exact .pure ()
    · next elements hne helements =>
      have hcomposed : composed environment target scopes
          (.sequence input operations placeholder fallback) =
            .inTurn (elements.map fun element =>
              .inTurn ((operations.filter environment.defines).map
                (outcome environment target (scopes.push.set placeholder element)))) := by
        rw [← Outcome.inTurn_flatMap]
        cases elements with
        | nil => exact absurd rfl hne
        | cons element elements => simp only [composed, helements]
      rw [hcomposed]
      refine .forM fun element _ => .within (Scopes.pop_set_push ..) (runAll_leaves ?_)
      exact fun scopes reference hmem => h scopes reference (List.mem_append_left _ hmem)
  | template file placeholders fallback modifiers =>
    unfold composed perform
    dsimp only [Environment.templatePath]
    cases hread : environment.templates.read? (environment.templates.directory.join ⟨file⟩) with
    | none =>
      dsimp only
      split
      · refine (Run.Leaves.tell ..).bind_done ?_
        exact choice_leaves h _
      · exact .throw ..
    | some content => exact renderTemplate_leaves ..

/-- Whether the condition of an operation holds in the scopes. -/
def Environment.admits (environment : Environment) (scopes : Scopes) (operation : Operation) :
    Bool :=
  match operation.condition with
  | none => true
  | some condition =>
    match condition.holds (environment.names scopes) with
    | .ok holds => holds
    | .error _ => false

/-- What is told about a condition that has no value. -/
def Environment.doubts (environment : Environment) (scopes : Scopes) (operation : Operation) :
    List Event :=
  match operation.condition with
  | none => []
  | some condition =>
    match condition.holds (environment.names scopes) with
    | .ok _ => []
    | .error fault =>
      [.told ⟨.warn, .execution,
        "Unable to evaluate condition: " ++ condition.source ++ " of operation: "
          ++ operation.identifier ++ " with error: Condition error: " ++ fault.message ++ "."⟩]

theorem text_doubts (operation : Operation) :
    Event.text (environment.doubts scopes operation) = "" := by
  unfold Environment.doubts
  split
  · rfl
  · split <;> rfl

theorem applies_yields (operation : Operation) :
    Run.Yields target (applies environment operation) scopes
      (.ok (environment.admits scopes operation)) (environment.doubts scopes operation) := by
  unfold applies Environment.admits Environment.doubts
  cases operation.condition with
  | none => exact .pure true
  | some condition =>
    refine .bind_ok .scopes_ok ?_
    dsimp only
    cases condition.holds (environment.names scopes) with
    | ok holds => exact .pure holds
    | error fault => exact .bind_ok (.tell _ _ _) (.pure false)

theorem applies_leaves (operation : Operation) :
    Run.Leaves target (applies environment operation) scopes
      (environment.admits scopes operation) .done :=
  ⟨_, applies_yields operation, text_doubts operation⟩

/-- What a run of the operation leaves behind is read off a run into an output without text. -/
theorem outcome_eq_of_leaves {operation : Operation}
    (hmem : operation ∈ environment.operations.operations) {expected : Outcome}
    (h : Run.Leaves target (runOperation environment target operation hmem) scopes () expected) :
    outcome environment target scopes operation.identifier = expected := by
  obtain ⟨events, hyields, htext⟩ := h
  have hfind : environment.operations.find? operation.identifier = some operation :=
    OperationSet.find?_of_mem environment.operations.distinct hmem
  let start : State := ⟨scopes, .replace, .empty, #[]⟩
  have hrun : (runMain environment target operation.identifier).run.run start =
      (expected.result, start.afterAll target events) := by
    unfold runMain
    split
    · next other hother =>
      have hsame : other = operation := Option.some.inj (hother.symm.trans hfind)
      subst hsame
      rw [bind_run, ← expected.map_result]
      exact hyields start rfl
    · next hnone => simp [hnone] at hfind
  have hoccurs : ((start.afterAll target events).output.find? target).getD "" = expected.text := by
    rw [State.find?_afterAll]
    cases hwrites : Event.writes events with
    | true => simpa [start] using htext
    | false =>
      rw [Event.text_eq_empty hwrites] at htext
      simpa [start] using htext
  unfold outcome
  rw [hrun]
  dsimp only
  rw [hoccurs]

/-- What an operation leaves behind, if nothing is known of its condition. -/
def admitted (environment : Environment) (target : Path) (scopes : Scopes)
    (operation : Operation) : Outcome :=
  if environment.admits scopes operation then
    composed environment target scopes operation.kind
  else .done

theorem runOperation_leaves_admitted {operation : Operation}
    (hmem : operation ∈ environment.operations.operations)
    (h : ReferencesLeave environment target operation.kind.references
      fun reference _ => runReference environment target operation.identifier reference) :
    Run.Leaves target (runOperation environment target operation hmem) scopes ()
      (admitted environment target scopes operation) := by
  rw [runOperation_eq]
  refine (applies_leaves operation).bind_done ?_
  unfold admitted
  split
  · exact (Run.Leaves.tell ..).bind_done (perform_leaves operation.identifier operation.kind h)
  · exact .tell ..

theorem runReference_leaves {parent reference : String}
    (h : ∀ other (hfind : environment.operations.find? reference = some other),
      Run.Leaves target
        (runOperation environment target other (OperationSet.mem_of_find? hfind).1) scopes ()
        (outcome environment target scopes other.identifier)) :
    Run.Leaves target (runReference environment target parent reference) scopes
      (environment.defines reference)
      (outcomeOfReference environment target scopes reference) := by
  unfold runReference outcomeOfReference Environment.defines
  split
  · next other hfind =>
    have hsame : outcome environment target scopes other.identifier =
        outcome environment target scopes reference := by
      rw [(OperationSet.mem_of_find? hfind).2]
    have hother := h other hfind
    rw [hsame] at hother
    simp only [hfind, Option.isSome_some, if_true]
    rw [← Outcome.andThen_done (outcome environment target scopes reference)]
    exact hother.bind (.pure true)
  · next hnone =>
    simp only [hnone, Option.isSome_none]
    exact (Run.Leaves.tell ..).bind_done (.pure false)

/-- An operation leaves the same behind wherever it is run: in any state with the scopes it does
what it does as the main operation. -/
theorem runOperation_leaves (operation : Operation)
    (hmem : operation ∈ environment.operations.operations) (scopes : Scopes) :
    Run.Leaves target (runOperation environment target operation hmem) scopes ()
      (outcome environment target scopes operation.identifier) := by
  induction hrank : environment.operations.rank operation.identifier using
    Nat.strongRecOn generalizing operation scopes with
  | _ rank ih =>
    -- By induction what the operation refers to leaves its own outcome, as its rank is lower.
    have hreferences : ReferencesLeave environment target operation.kind.references
        fun reference _ => runReference environment target operation.identifier reference := by
      intro scopes reference href
      refine runReference_leaves fun other hfind => ?_
      have hlt : environment.operations.rank other.identifier < rank :=
        hrank ▸ OperationSet.rank_lt_rank hmem hfind href
      exact ih _ hlt other (OperationSet.mem_of_find? hfind).1 scopes rfl
    have hleaves : Run.Leaves target (runOperation environment target operation hmem) scopes ()
        (admitted environment target scopes operation) :=
      runOperation_leaves_admitted hmem hreferences
    rwa [outcome_eq_of_leaves hmem hleaves]

/-- The outcome of an operation is composed of the outcomes of those that it refers to. -/
theorem outcome_eq_admitted {operation : Operation}
    (hmem : operation ∈ environment.operations.operations) :
    outcome environment target scopes operation.identifier =
      admitted environment target scopes operation :=
  outcome_eq_of_leaves hmem <| runOperation_leaves_admitted hmem fun scopes _ _ =>
    runReference_leaves fun other hfind =>
      runOperation_leaves other (OperationSet.mem_of_find? hfind).1 scopes

end perform

/-- An operation whose condition holds, if it has one, leaves this behind when it is run into an
output without text. A group leaves what its operations leave in turn, each run on its own with the
same scopes, up to the first that is missing. A sequence over a list with items leaves what its
operations leave in turn, for each item in turn, in a scope that binds the item; missing ones are
passed over. A selection, a sequence over nothing and a template whose file is missing leave what
the operation leaves that is chosen, or nothing if none is chosen or the chosen one is missing; a
template without file and fallback fails. -/
theorem outcome_composes (environment : Environment) (target : Path) (scopes : Scopes)
    (operation : Operation) (hmem : operation ∈ environment.operations.operations)
    (hholds : ∀ condition ∈ operation.condition,
      condition.holds (environment.names scopes) = .ok true) :
    let whole := outcome environment target scopes operation.identifier
    let chosen := outcomeOfChoice environment target scopes
    match operation.kind with
    | .group operations =>
      whole.Joins <|
        (operations.takeWhile environment.defines).map (outcome environment target scopes)
    | .selection input options default =>
      whole = chosen (selected? options default ((scopes.get? input).bind Value.text?))
    | .sequence input operations placeholder fallback =>
      match scopes.get? input with
      | some (.array []) | some .null | none => whole = chosen fallback
      | some (.array elements) =>
        whole.Joins <| elements.flatMap fun element =>
          (operations.filter environment.defines).map
            (outcome environment target (scopes.push.set placeholder element))
      | some _ => whole = .done
    | .template file _ fallback _ =>
      let path := environment.templates.directory.join ⟨file⟩
      environment.templates.read? path = none →
        match fallback with
        | some _ => whole = chosen fallback
        | none => whole = ⟨.error (.missingTemplate path), ""⟩ := by
  have hadmits : environment.admits scopes operation = true := by
    unfold Environment.admits
    split
    · rfl
    · next condition hsome => rw [hholds condition hsome]
  have hwhole : outcome environment target scopes operation.identifier =
      composed environment target scopes operation.kind := by
    rw [outcome_eq_admitted hmem, admitted, if_pos hadmits]
  simp only [hwhole]
  cases operation.kind with
  | group operations => exact Outcome.joins_inTurn _
  | selection input options default => rfl
  | sequence input operations placeholder fallback =>
    dsimp only [composed]
    split
    · next hnil =>
      rw [hnil]
      rfl
    · next hnull =>
      rw [hnull]
      rfl
    · next hnone =>
      rw [hnone]
      rfl
    · next elements hne harray =>
      rw [harray]
      cases elements with
      | nil => exact absurd rfl hne
      | cons element elements => exact Outcome.joins_inTurn _
    · next value hnil hnull harray hvalue =>
      rw [hvalue]
      cases value with
      | null => exact absurd rfl hnull
      | array elements => exact absurd rfl (harray elements)
      | bool | number | string | object => rfl
  | template file placeholders fallback modifiers =>
    dsimp only [composed, Environment.templatePath]
    intro hmissing
    rw [hmissing]
    cases fallback <;> rfl

/-- A sequence over two items that refers to one operation that is there and one that is not. -/
theorem outcome_composes_sequence :
    let part : Operation := ⟨"part", none, .template "part.txt" [] none []⟩
    let main : Operation :=
      ⟨"main", some ⟨"True", .literal (.bool true)⟩,
        .sequence "items" ["part", "missing"] "item" none⟩
    let environment : Environment :=
      ⟨⟨[main, part], by decide, ["main", "part"], by decide⟩, .empty,
        ⟨⟨"templates"⟩, fun _ => some (.ok "[$item]")⟩⟩
    let scopes : Scopes := .ofScope (.ofList [("items", .array [.string "x", .string "y"])])
    main ∈ environment.operations.operations ∧
      (∀ condition ∈ main.condition, condition.holds (environment.names scopes) = .ok true) ∧
      (outcome environment ⟨"out"⟩ scopes "main").Joins
        [outcome environment ⟨"out"⟩ (scopes.push.set "item" (.string "x")) "part",
          outcome environment ⟨"out"⟩ (scopes.push.set "item" (.string "y")) "part"] := by
  intro part main environment scopes
  have hmem : main ∈ environment.operations.operations := List.mem_cons_self
  have hholds : ∀ condition ∈ main.condition,
      condition.holds (environment.names scopes) = .ok true := by
    intro condition hcondition
    cases hcondition
    rfl
  exact ⟨hmem, hholds, outcome_composes environment ⟨"out"⟩ scopes main hmem hholds⟩

/-! ## The scopes after a run -/

/-- A run puts the scopes back as they were, whether it succeeds or fails. -/
theorem runMain_scopes (environment : Environment) (target : Path) (main : String)
    (state : State) :
    ((runMain environment target main).run.run state).2.scopes = state.scopes := by
  unfold runMain
  split
  · next operation hfind =>
    rw [bind_run]
    obtain ⟨events, hyields, -⟩ := @runOperation_leaves environment target operation
      (OperationSet.mem_of_find? hfind).1 state.scopes
    have hreplacing : Run.Yields target
        (runOperation environment target operation (OperationSet.mem_of_find? hfind).1)
        { state with mode := .replace }.scopes _ events := hyields
    exact hreplacing.scopes_eq
  · rfl

end Stencil.Execution
