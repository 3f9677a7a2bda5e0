import HubBindings.Ascending
import HubBindings.Binding

/-!
Import lines of generated files, and the lines at the top of each file.
-/

namespace HubBindings.Client

/-- The line that tells where a file comes from. -/
def banner : String := "/* THIS (.ts) FILE IS GENERATED BY hubgen */"

/-- The lines at the top of every file. -/
def heading : List String := [banner, "/* eslint-disable */", "/* tslint:disable */"]

/-- The file stem for a namespace; types without a namespace live in `global`. -/
def moduleName (nameSpace : String) : String := if nameSpace = "" then "global" else nameSpace

/-- An import of names from a module. -/
structure ImportLine where
  names : List String
  source : String
  deriving DecidableEq, Repr

/-- The text of an import. -/
def ImportLine.text (i : ImportLine) : String :=
  "import \x7b " ++ ", ".intercalate i.names ++ " \x7d from '" ++ i.source ++ "';"

/-- One import for each module, in ascending order, with the names in ascending order. `directory`
leads to the modules. -/
def importLines (directory : String) (imports : List TypeImport) : List ImportLine :=
  (Ascending.groupSets (imports.map fun i => (moduleName i.nameSpace, i.name))).map
    fun (module, names) => { names, source := directory ++ module }

/-- Keeps the first contract of each qualified name. -/
def firstOccurrences (seen : List String) : List BoundContract → List BoundContract
  | [] => []
  | c :: rest =>
    if seen.contains c.qualifiedName then firstOccurrences seen rest
    else c :: firstOccurrences (c.qualifiedName :: seen) rest

/-- The wrappers that contracts use, in ascending order. -/
def wrappersOf (cs : List BoundContract) : List Wrapper :=
  Ascending.ofList (cs.flatMap (·.wrappers))

end HubBindings.Client
