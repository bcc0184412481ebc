import Stencil.Sorting
import Stencil.Source.Alignment
import Stencil.Source.Declaration
import Stencil.Source.LineKind

/-!
# Layout of source lines

Layout reads lines one by one and remembers little: how many braces are open, whether a comment is
open, whether the last line of code ended in a closing parenthesis, and in which *phase* it is. A
function body opens with a phase that holds lines back until its declarations are complete; then
the lines are given out in runs, sorted and aligned. A `case` label opens a phase in which lines are
indented under the label.

Each step gives out lines, so that the whole is the lines of the steps one after the other
(`Layout.run`) and what is still held back at the end.
-/

namespace Stencil.Source

/-- The lines in declaration order: declarations first, other lines after them as they come. -/
def sortDeclarations (lines : List Line) : List Line :=
  stableSort order lines
where
  /-- Whether a line may stand before another. -/
  order (a b : Line) : Bool :=
    match Declaration.parse? a, Declaration.parse? b with
    | some a, some b => (a.compare b).isLE
    | none, some _ => false
    | _, none => true

/-- A run of declarations in order and aligned. -/
def arrange (run : List Line) : List Line :=
  align (sortDeclarations run)

/-- What layout is in the middle of. -/
inductive Phase where
  /-- Nothing in particular. -/
  | plain
  /-- The declarations at the start of a function body; the lines held back so far. -/
  | declarations (held : List (LineKind × Line))
  /-- The lines under a case label, and their level. -/
  | caseBody (level : Nat)
  deriving DecidableEq, Repr

/-- What is remembered between two lines. -/
structure Layout where
  /-- What layout is in the middle of. -/
  phase : Phase := .plain
  /-- The number of open braces. -/
  depth : Nat := 0
  /-- Whether a comment is open. -/
  inComment : Bool := false
  /-- Whether the last line of code or braces ended in a closing parenthesis. -/
  afterParenthesis : Bool := false
  deriving DecidableEq, Repr

namespace Layout

/-- The level that a line is indented to. -/
def level (s : Layout) : Nat :=
  match s.phase with
  | .caseBody level => max level s.depth
  | _ => s.depth

/-- A line as it is given out. Preprocessor lines start in the first column. -/
def place (s : Layout) (kind : LineKind) (line : Line) : Line :=
  match kind with
  | .preprocessor => normalize 0 line
  | _ => normalize s.level line

/-- The lines held back, as they are given out. Comments and preprocessor lines separate the runs
that are arranged; `run` is the run that is open. -/
def settle (depth : Nat) (run : List Line) : List (LineKind × Line) → List Line
  | [] => arrange run
  | (.preprocessor, line) :: held => arrange run ++ normalize 0 line :: settle depth [] held
  | (.comment, line) :: held => arrange run ++ normalize depth line :: settle depth [] held
  | (_, line) :: held => settle depth (run ++ [normalize depth line]) held

/-- The lines that are still held back, as they are given out. -/
def pending (s : Layout) : List Line :=
  match s.phase with
  | .declarations held => settle s.depth [] held
  | _ => []

/-- Whether a line of this kind ends the declarations of a function body. -/
def endsDeclarations : LineKind → Bool
  | .code hasParenthesis => hasParenthesis
  | .openBrace | .closeBrace | .caseLabel | .breakStatement => true
  | .blank | .comment | .preprocessor => false

/-- Takes a line that is given out at once: what is remembered after it, and the line. -/
def emit (s : Layout) (kind : LineKind) (line : Line) : Layout × Line :=
  match kind with
  | .openBrace =>
    ({ s with
        depth := s.depth + 1
        phase := if s.depth = 0 ∧ s.afterParenthesis then .declarations [] else s.phase
        afterParenthesis := false },
      s.place kind line)
  | .closeBrace =>
    let s := { s with depth := s.depth - 1, phase := .plain }
    ({ s with afterParenthesis := (Text.trimEnd line).getLast? = some ')' }, s.place kind line)
  | .caseLabel =>
    let s := { s with phase := .plain }
    let labelLevel := width (line.takeWhile Text.isBlank) / tabWidth
    ({ s with phase := .caseBody (max labelLevel s.depth + 1) }, s.place kind line)
  | .breakStatement =>
    ({ s with phase := match s.phase with | .caseBody _ => .plain | phase => phase },
      s.place kind line)
  | .code _ =>
    let closes := (Text.trimStart line).head? = some '}'
    let s :=
      { s with phase := match s.phase with
          | .caseBody level => if closes then .plain else .caseBody level
          | phase => phase }
    ({ s with afterParenthesis := (Text.trimEnd line).getLast? = some ')' }, s.place kind line)
  | .blank | .comment | .preprocessor => (s, s.place kind line)

/-- Takes a line: what is remembered after it, and the lines given out. -/
def step (s : Layout) (line : Line) : Layout × List Line :=
  let (kind, inComment) := classify s.inComment line
  let s := { s with inComment }
  match s.phase with
  | .declarations held =>
    if endsDeclarations kind then
      let (t, out) := emit { s with phase := .plain } kind line
      (t, s.pending ++ [out])
    else ({ s with phase := .declarations (held ++ [(kind, line)]) }, [])
  | _ =>
    let (t, out) := s.emit kind line
    (t, [out])

/-- The lines given out for `lines`, and at their end the lines that are still held back. -/
def run (s : Layout) : List Line → List Line
  | [] => s.pending
  | line :: lines => (s.step line).2 ++ run (s.step line).1 lines

end Layout

end Stencil.Source
