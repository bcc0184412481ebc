import Stencil.Scopes
import Stencil.Text.Upper

/-!
# Projects

A project is described by what is known about it, about its library, and perhaps about a Python
module, tools and tests. Conditions see it through a fixed list of attributes, templates through a
scope of names.
-/

namespace Stencil

namespace Project

/-- What is known about a project. -/
structure About where
  name : String := ""
  status : String := ""
  /-- The year in which the project was begun. -/
  year : Option Nat := none
  authors : List String := []
  deriving DecidableEq, Repr

/-- The library of a project. -/
structure Library where
  name : String := ""
  description : String := ""
  publicTypes : List String := []
  buildDependencies : List String := []
  features : List String := []
  deriving DecidableEq, Repr

/-- The Python module of a project. -/
structure PythonModule where
  name : Option String := none
  features : List String := []
  deriving DecidableEq, Repr

/-- The tools of a project. -/
structure Tools where
  names : List String := []
  buildDependencies : List String := []
  deriving DecidableEq, Repr

/-- The tests of a project. -/
structure Tests where
  features : List String := []
  profiles : List String := []
  deriving DecidableEq, Repr

end Project

/-- The description of a project. -/
structure Project where
  about : Project.About := {}
  library : Project.Library := {}
  pythonModule : Option Project.PythonModule := none
  tools : Option Project.Tools := none
  tests : Option Project.Tests := none
  deriving DecidableEq, Repr

namespace Project

/-- A project of which nothing is known. -/
def empty : Project := {}

/-- A name without `lib` at its start. -/
def withoutLib (name : String) : String :=
  match name.toList with
  | 'l' :: 'i' :: 'b' :: rest => String.ofList rest
  | _ => name

/-- The name of the library without `lib` at its start. -/
def librarySuffix (project : Project) : String :=
  withoutLib project.library.name

/-- The name of the Python module. If none is given, it is made from the name of the library. -/
def pythonModuleName (project : Project) : String :=
  (project.pythonModule.bind PythonModule.name).getD ("py" ++ project.librarySuffix)

/-- Whether there is a tool. -/
def hasTools (project : Project) : Bool :=
  project.tools.any fun tools => !tools.names.isEmpty

/-- A list of texts as a value. -/
def ofTexts (texts : List String) : Value :=
  .array (texts.map .string)

/-- The year in which the project was begun, as a value. -/
def yearValue (project : Project) : Value :=
  match project.about.year with
  | some year => .number (.integer year)
  | none => .null

/-- What conditions see of a project. -/
def attributes (project : Project) : List (String × Value) :=
  let library := project.library
  let tools := project.tools.getD {}
  let tests := project.tests.getD {}
  [("project_name", .string project.about.name),
    ("project_status", .string project.about.status),
    ("project_year_of_creation", project.yearValue),
    ("project_authors", ofTexts project.about.authors),
    ("library_name", .string library.name),
    ("library_description", .string library.description),
    ("library_public_types", ofTexts library.publicTypes),
    ("library_build_dependencies", ofTexts library.buildDependencies),
    ("library_features", ofTexts library.features),
    ("python_module_features", ofTexts (project.pythonModule.getD {}).features),
    ("tools_names", ofTexts tools.names),
    ("tools_build_dependencies", ofTexts tools.buildDependencies),
    ("tests_features", ofTexts tests.features),
    ("tests_profiles", ofTexts tests.profiles),
    ("library_name_suffix", .string project.librarySuffix),
    ("python_module_name", .string project.pythonModuleName),
    ("has_python_module", .bool project.pythonModule.isSome),
    ("has_tools", .bool project.hasTools),
    ("has_tests", .bool project.tests.isSome)]

/-- The value of an attribute. -/
def attribute? (project : Project) (name : String) : Option Value :=
  project.attributes.lookup name

/-- What templates see of a project. -/
def scope (project : Project) : Scope :=
  .ofList
    [("project_name", .string project.about.name),
      ("project_status", .string project.about.status),
      ("project_year_of_creation", project.yearValue),
      ("authors", .string (", ".intercalate project.about.authors)),
      ("library_name", .string project.library.name),
      ("library_name_upper_case", .string (Text.upper project.library.name)),
      ("library_name_suffix", .string project.librarySuffix),
      ("library_name_suffix_upper_case", .string (Text.upper project.librarySuffix)),
      ("library_description", .string project.library.description),
      ("python_module_name", .string project.pythonModuleName)]

end Project

end Stencil
