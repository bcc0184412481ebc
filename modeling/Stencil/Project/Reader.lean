import Stencil.Project
import Stencil.Project.Format

/-!
# Reading projects

The description of a project is a record in JSON or YAML. A field that is not given has no content,
and there are no other fields than those named here.
-/

namespace Stencil.Project

variable {α : Type} (format : Format α)

/-- What is known about a project, as it is described. -/
def readAbout (a : α) : Option About := do
  let fields ← format.fields? ["name", "status", "year_of_creation", "authors"] a
  return {
    name := ← format.text fields "name"
    status := ← format.text fields "status"
    year := ← Format.field (format.optional format.number?) none fields "year_of_creation"
    authors := ← format.texts fields "authors" }

/-- A library, as it is described. -/
def readLibrary (a : α) : Option Library := do
  let names := ["name", "description", "public_types", "build_dependencies", "features"]
  let fields ← format.fields? names a
  return {
    name := ← format.text fields "name"
    description := ← format.text fields "description"
    publicTypes := ← format.texts fields "public_types"
    buildDependencies := ← format.texts fields "build_dependencies"
    features := ← format.texts fields "features" }

/-- A Python module, as it is described. -/
def readPythonModule (a : α) : Option PythonModule := do
  let fields ← format.fields? ["name", "features"] a
  return {
    name := ← Format.field (format.optional format.text?) none fields "name"
    features := ← format.texts fields "features" }

/-- Tools, as they are described. -/
def readTools (a : α) : Option Tools := do
  let fields ← format.fields? ["names", "build_dependencies"] a
  return {
    names := ← format.texts fields "names"
    buildDependencies := ← format.texts fields "build_dependencies" }

/-- Tests, as they are described. -/
def readTests (a : α) : Option Tests := do
  let fields ← format.fields? ["features", "profiles"] a
  return {
    features := ← format.texts fields "features"
    profiles := ← format.texts fields "profiles" }

/-- A project, as it is described. -/
def read (a : α) : Option Project := do
  let fields ← format.fields? ["project", "library", "python_module", "tools", "tests"] a
  return {
    about := ← Format.field (readAbout format) {} fields "project"
    library := ← Format.field (readLibrary format) {} fields "library"
    pythonModule :=
      ← Format.field (format.optional (readPythonModule format)) none fields "python_module"
    tools := ← Format.field (format.optional (readTools format)) none fields "tools"
    tests := ← Format.field (format.optional (readTests format)) none fields "tests" }

/-- The project that a text describes: in JSON, or else in YAML. -/
def ofText? (text : String) : Option Project :=
  ((Json.parse? text).bind (read Format.json)).or
    ((Yaml.Node.ofText? text).bind (read Format.yaml))

end Stencil.Project
