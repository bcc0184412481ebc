import Stencil.Proofs.Execution.Composition

/-!
# Declared placeholders

A template may declare names that need no value. A name that has a value keeps it, and the others
mean null, so more names have values the more are declared, and none another one
(`Scopes.extends_declare`). Rendering then fails less often and never gives another text
(`Template.render_of_extends`); what is told of a name says that it is not declared
(`perform_template_declared`).
-/

namespace Stencil

namespace Template

/-- Every name that has a value keeps it. -/
def Extends (names names' : String → Option Value) : Prop :=
  ∀ name value, names name = some value → names' name = some value

variable {names names' : String → Option Value}

theorem Piece.render_of_extends (h : Extends names names') {piece : Piece} {text : List Char}
    (hrender : piece.render names = .ok text) : piece.render names' = .ok text := by
  cases piece with
  | char | stray => exact hrender
  | placeholder name =>
    rw [render] at hrender
    cases hname : names name with
    | none =>
      rw [hname] at hrender
      cases hrender
    | some value =>
      rw [hname] at hrender
      rw [render, h name value hname]
      exact hrender

theorem renderPieces_of_extends (h : Extends names names') {pieces : List Piece} {text : List Char}
    (hrender : renderPieces names pieces = .ok text) : renderPieces names' pieces = .ok text := by
  induction pieces generalizing text with
  | nil => exact hrender
  | cons piece pieces ih =>
    rw [renderPieces, bind_eq_ok_iff] at hrender
    obtain ⟨first, hfirst, hrender⟩ := hrender
    rw [bind_eq_ok_iff] at hrender
    obtain ⟨rest, hrest, htext⟩ := hrender
    rw [renderPieces, Piece.render_of_extends h hfirst, ih hrest]
    exact htext

/-- Where more names have values, a template that has a text has the same one. -/
theorem render_of_extends (h : Extends names names') {template text : String}
    (hrender : render names template = .ok text) : render names' template = .ok text := by
  rw [render, map_eq_ok_iff] at hrender ⊢
  obtain ⟨chars, hchars, rfl⟩ := hrender
  exact ⟨chars, renderPieces_of_extends h hchars, rfl⟩

/-- The fault of pieces is that of one of them. -/
theorem exists_of_renderPieces_eq_error {pieces : List Piece} {fault : Fault}
    (h : renderPieces names pieces = .error fault) :
    ∃ piece ∈ pieces, piece.render names = .error fault := by
  induction pieces with
  | nil => cases h
  | cons piece pieces ih =>
    rw [renderPieces] at h
    cases hpiece : piece.render names with
    | error fault' =>
      rw [hpiece] at h
      cases h
      exact ⟨piece, List.mem_cons_self, hpiece⟩
    | ok text =>
      cases hrest : renderPieces names pieces with
      | error fault' =>
        rw [hpiece, hrest] at h
        cases h
        obtain ⟨piece', hmem, hpiece'⟩ := ih hrest
        exact ⟨piece', List.mem_cons_of_mem _ hmem, hpiece'⟩
      | ok rest =>
        rw [hpiece, hrest] at h
        cases h

theorem eq_placeholder_of_missing {piece : Piece} {name : String}
    (h : piece.render names = .error (.missingPlaceholder name)) :
    piece = .placeholder name ∧ names name = none := by
  cases piece with
  | char | stray => cases h
  | placeholder name' =>
    rw [Piece.render] at h
    cases hname : names name' with
    | none =>
      rw [hname] at h
      cases h
      exact ⟨rfl, hname⟩
    | some value =>
      rw [hname] at h
      cases value <;> simp [valueText, Value.text?, Except.map] at h

/-- A name that a template is rejected for stands in it and has no value. -/
theorem placeholder_mem_of_missing {template name : String}
    (h : render names template = .error (.missingPlaceholder name)) :
    .placeholder name ∈ pieces template.toList ∧ names name = none := by
  rw [render] at h
  cases hpieces : renderPieces names (pieces template.toList) with
  | ok text =>
    rw [hpieces] at h
    cases h
  | error fault =>
    rw [hpieces] at h
    cases h
    obtain ⟨piece, hmem, hpiece⟩ := exists_of_renderPieces_eq_error hpieces
    obtain ⟨rfl, hname⟩ := eq_placeholder_of_missing hpiece
    exact ⟨hmem, hname⟩

end Template

namespace Scopes

variable {scopes : Scopes} {placeholders placeholders' : List String}

theorem get?_declare_push (scopes : Scopes) (placeholders : List String) (name : String) :
    (scopes.push.declare placeholders).get? name =
      (scopes.get? name).or (if name ∈ placeholders then some .null else none) := by
  rw [get?_declare, get?_push]

theorem get?_declare_push_of_mem {name : String} (h : name ∈ placeholders) :
    (scopes.push.declare placeholders).get? name ≠ none := by
  rw [get?_declare_push, if_pos h]
  cases scopes.get? name <;> nofun

theorem extends_declare (h : placeholders ⊆ placeholders') :
    Template.Extends (scopes.push.declare placeholders).get?
      (scopes.push.declare placeholders').get? := by
  intro name value hvalue
  rw [get?_declare_push] at hvalue ⊢
  cases hname : scopes.get? name with
  | some value' => rwa [hname] at hvalue
  | none =>
    by_cases hmem : name ∈ placeholders
    · rw [hname, if_pos hmem] at hvalue
      rwa [if_pos (h hmem)]
    · rw [hname, if_neg hmem] at hvalue
      cases hvalue

/-- How often and in which order names are declared does not matter. -/
theorem get?_declare_congr (scopes : Scopes)
    (h : ∀ name, name ∈ placeholders ↔ name ∈ placeholders') :
    (scopes.push.declare placeholders).get? = (scopes.push.declare placeholders').get? := by
  funext name
  simp only [get?_declare_push, h name]

end Scopes

namespace Execution

section template

variable {environment : Environment} {file template : String} {fallback : Option String}
  {run : (reference : String) → reference ∈ fallback.toList → Run Bool}
  (target : Path) (identifier : String) (modifiers : List Modifier) (state : State)
  (htemplate : environment.templates.read? (environment.templatePath file) = some (.ok template))

include htemplate

/-- A template that is there is rendered, whatever else is done in its absence. -/
theorem perform_template_run (placeholders : List String) :
    (perform environment target identifier (.template file placeholders fallback modifiers)
        run).run.run state =
      ((outcomeOfTemplate state.scopes (environment.templatePath file) (.ok template) placeholders
          modifiers).result,
        state.afterAll target (eventsOfTemplate state.scopes (environment.templatePath file)
          (.ok template) placeholders modifiers)) := by
  have hread : environment.templates.read? (environment.templates.directory.join ⟨file⟩) =
      some (.ok template) := htemplate
  unfold perform
  dsimp only
  rw [hread]
  exact renderTemplate_yields _ _ _ _ state rfl

theorem perform_template_of_ok {placeholders : List String} {text : String}
    (h : Template.render (state.scopes.push.declare placeholders).get? template = .ok text) :
    (perform environment target identifier (.template file placeholders fallback modifiers)
        run).run.run state =
      (.ok (), (state.after target (.rendering (environment.templatePath file))).after target
        (.wrote (String.ofList (Modifier.applyAll modifiers text.toList)))) := by
  rw [perform_template_run target identifier modifiers state htemplate]
  simp only [eventsOfTemplate, outcomeOfTemplate, h]
  rfl

theorem perform_template_of_error {placeholders : List String} {fault : Template.Fault}
    (h : Template.render (state.scopes.push.declare placeholders).get? template = .error fault) :
    (perform environment target identifier (.template file placeholders fallback modifiers)
        run).run.run state =
      (.error (.template (environment.templatePath file) fault),
        state.after target (.rendering (environment.templatePath file))) := by
  rw [perform_template_run target identifier modifiers state htemplate]
  simp only [eventsOfTemplate, outcomeOfTemplate, h]
  rfl

/-- Whatever a template that is there fails with is a fault of its text. -/
theorem exists_of_perform_template_eq_error {placeholders : List String} {fault : Fault}
    (h : ((perform environment target identifier
      (.template file placeholders fallback modifiers) run).run.run state).1 = .error fault) :
    ∃ fault', fault = .template (environment.templatePath file) fault' ∧
      Template.render (state.scopes.push.declare placeholders).get? template = .error fault' := by
  cases hrender : Template.render (state.scopes.push.declare placeholders).get? template with
  | ok text =>
    rw [perform_template_of_ok target identifier modifiers state htemplate hrender] at h
    cases h
  | error fault' =>
    rw [perform_template_of_error target identifier modifiers state htemplate hrender] at h
    cases h
    exact ⟨fault', rfl, rfl⟩

theorem perform_template_congr {placeholders placeholders' : List String}
    (h : ∀ name, name ∈ placeholders ↔ name ∈ placeholders') :
    (perform environment target identifier (.template file placeholders fallback modifiers)
        run).run.run state =
      (perform environment target identifier (.template file placeholders' fallback modifiers)
        run).run.run state := by
  have hnames := Scopes.get?_declare_congr state.scopes h
  cases hrender : Template.render (state.scopes.push.declare placeholders).get? template with
  | ok text =>
    rw [perform_template_of_ok target identifier modifiers state htemplate hrender,
      perform_template_of_ok target identifier modifiers state htemplate (hnames ▸ hrender)]
  | error fault =>
    rw [perform_template_of_error target identifier modifiers state htemplate hrender,
      perform_template_of_error target identifier modifiers state htemplate (hnames ▸ hrender)]

theorem perform_template_of_subset {placeholders placeholders' : List String}
    (h : placeholders ⊆ placeholders') {after : State}
    (hperform : (perform environment target identifier
      (.template file placeholders fallback modifiers) run).run.run state = (.ok (), after)) :
    (perform environment target identifier (.template file placeholders' fallback modifiers)
        run).run.run state = (.ok (), after) := by
  cases hrender : Template.render (state.scopes.push.declare placeholders).get? template with
  | ok text =>
    have hrender' := Template.render_of_extends (Scopes.extends_declare h) hrender
    rw [perform_template_of_ok target identifier modifiers state htemplate hrender] at hperform
    rw [perform_template_of_ok target identifier modifiers state htemplate hrender', hperform]
  | error fault =>
    rw [perform_template_of_error target identifier modifiers state htemplate hrender] at hperform
    cases hperform

/-- The more placeholders a template declares the less it is rejected for. A declared name that has
no value means null and others mean what they did; so a template that writes a text writes the same
if more is declared, it is never rejected for want of a declared name, and it is rejected for stray
dollar signs and values without a text alone if all its names are declared. -/
theorem perform_template_declared (placeholders : List String) :
    let path := environment.templatePath file
    let performed := fun placeholders =>
      (perform environment target identifier (.template file placeholders fallback modifiers)
        run).run.run state
    (∃ names : String → Option Value,
      (∀ name value, state.scopes.get? name = some value → names name = some value) ∧
      (∀ name, state.scopes.get? name = none →
        names name = if name ∈ placeholders then some .null else none) ∧
      (∀ text, Template.render names template = .ok text →
        (performed placeholders).1 = .ok () ∧
        (performed placeholders).2.output = state.output.write target
          (String.ofList (Modifier.applyAll modifiers text.toList)) state.mode) ∧
      ∀ fault, Template.render names template = .error fault →
        (performed placeholders).1 = .error (.template path fault) ∧
        (performed placeholders).2.output = state.output) ∧
    (∀ placeholders' after, placeholders ⊆ placeholders' →
      performed placeholders = (.ok (), after) → performed placeholders' = (.ok (), after)) ∧
    (∀ path' name, name ∈ placeholders →
      (performed placeholders).1 ≠ .error (.template path' (.missingPlaceholder name))) ∧
    ((∀ name, .placeholder name ∈ Template.pieces template.toList → name ∈ placeholders) →
      ∀ fault, (performed placeholders).1 = .error fault →
        (∃ position, fault = .template path (.invalidPlaceholder position)) ∨
        ∃ name, fault = .template path (.invalidValue name)) ∧
    ∀ placeholders', (∀ name, name ∈ placeholders ↔ name ∈ placeholders') →
      performed placeholders = performed placeholders' := by
  intro path performed
  refine ⟨⟨(state.scopes.push.declare placeholders).get?, ?_, ?_, ?_, ?_⟩, ?_, ?_, ?_, ?_⟩
  · intro name value hvalue
    rw [Scopes.get?_declare_push, hvalue, Option.some_or]
  · intro name hnone
    rw [Scopes.get?_declare_push, hnone, Option.none_or]
  · intro text hrender
    dsimp only [performed]
    rw [perform_template_of_ok target identifier modifiers state htemplate hrender]
    exact ⟨rfl, rfl⟩
  · intro fault hrender
    dsimp only [performed]
    rw [perform_template_of_error target identifier modifiers state htemplate hrender]
    exact ⟨rfl, rfl⟩
  · intro placeholders' after hsubset hperform
    exact perform_template_of_subset target identifier modifiers state htemplate hsubset hperform
  · intro path' name hmem hperform
    obtain ⟨fault, heq, hrender⟩ :=
      exists_of_perform_template_eq_error target identifier modifiers state htemplate hperform
    cases heq
    exact Scopes.get?_declare_push_of_mem hmem (Template.placeholder_mem_of_missing hrender).2
  · intro hall fault hperform
    obtain ⟨fault', rfl, hrender⟩ :=
      exists_of_perform_template_eq_error target identifier modifiers state htemplate hperform
    cases fault' with
    | missingPlaceholder name =>
      obtain ⟨hname, hnone⟩ := Template.placeholder_mem_of_missing hrender
      exact absurd hnone (Scopes.get?_declare_push_of_mem (hall name hname))
    | invalidValue name => exact .inr ⟨name, rfl⟩
    | invalidPlaceholder position => exact .inl ⟨position, rfl⟩
  · intro placeholders' hcongr
    exact perform_template_congr target identifier modifiers state htemplate hcongr

end template

/-- A template with one name that has a value and one that is declared, be it more than once. -/
theorem perform_template_declared_repeated :
    let template := "[$a$b]"
    let environment : Environment :=
      ⟨⟨[], by decide, [], by decide⟩, .empty,
        ⟨⟨"templates"⟩, fun _ => some (.ok template)⟩⟩
    let state : State := ⟨.ofScope (.ofList [("a", .string "x")]), .replace, .empty, #[]⟩
    let run : (reference : String) → reference ∈ (none : Option String).toList → Run Bool :=
      fun _ _ => pure true
    let performed := fun placeholders =>
      (perform environment ⟨"out"⟩ "main" (.template "main.txt" placeholders none [])
        run).run.run state
    environment.templates.read? (environment.templatePath "main.txt") = some (.ok template) ∧
      ["b"] ⊆ ["b", "a", "b"] ∧ (performed ["b"]).1 = .ok () ∧
      performed ["b", "a", "b"] = performed ["b"] ∧
      (performed ["b"]).2.output.find? ⟨"out"⟩ = some "[x]" := by
  intro template environment state run performed
  have htemplate : environment.templates.read? (environment.templatePath "main.txt") =
      some (.ok template) := rfl
  have hpieces : Template.pieces template.toList =
      [.char '[', .placeholder "a", .placeholder "b", .char ']'] := by decide +kernel
  have hrender : Template.render (state.scopes.push.declare ["b"]).get? template = .ok "[x]" := by
    rw [Template.render, hpieces]
    rfl
  have hperform : performed ["b"] = _ :=
    perform_template_of_ok ⟨"out"⟩ "main" [] state htemplate hrender
  have hsubset : ["b"] ⊆ ["b", "a", "b"] := by simp
  have hdeclared :=
    @perform_template_declared _ _ _ _ run ⟨"out"⟩ "main" [] state htemplate ["b"]
  refine ⟨htemplate, hsubset, ?_, ?_, ?_⟩
  · rw [hperform]
  · exact (hdeclared.2.1 _ _ hsubset hperform).trans hperform.symm
  · rw [hperform]
    rfl

end Execution

end Stencil
