import HubBindings.Client.Import
import HubBindings.Settings.Basic
import HubBindings.Text.Layout

/-!
Interface files: one for each namespace, with a structural type for every contract declared there.
A contract that is a hub and a receiver is written once.
-/

namespace HubBindings

/-- A generated file. -/
structure SourceFile where
  path : String
  content : String
  deriving DecidableEq, Repr

namespace Client

open Text (Step)

/-- Name, parameters and result of a member. -/
structure Signature where
  name : String
  parameterList : String
  returns : String
  deriving DecidableEq, Repr

/-- The signature of a bound method. -/
def Signature.ofMethod (m : BoundMethod) : Signature :=
  { name := m.localName, parameterList := m.parameterList, returns := m.returnText }

/-- A member of an exported type. -/
structure Member where
  signature : Signature
  /-- Parameters with the texts of their types in the host language. -/
  parameters : List (String × String)
  /-- Text of the return type in the host language. -/
  returnDisplay : String
  deriving DecidableEq, Repr

/-- The member for a bound method. -/
def Member.ofMethod (m : BoundMethod) : Member :=
  { signature := .ofMethod m
    parameters := m.parameters.map fun p => (p.name, p.display)
    returnDisplay := m.returnDisplay }

/-- The documentation of a member. -/
def Member.docLines (m : Member) : List String :=
  ["/**"]
    ++ m.parameters.map (fun (name, display) =>
      "* @param " ++ name ++ " Transpiled from " ++ display)
    ++ ["* @returns Transpiled from " ++ m.returnDisplay, "*/"]

/-- The declaration of a member. -/
def Member.line (m : Member) : String :=
  m.signature.name ++ "(" ++ m.signature.parameterList ++ "): " ++ m.signature.returns ++ ";"

/-- The layout of a member. -/
def Member.steps (emitDocs : Bool) (m : Member) : List Step :=
  (if emitDocs then m.docLines.map .line else []) ++ [.line m.line]

/-- A type that an interface file exports. -/
structure ExportedType where
  name : String
  members : List Member
  deriving DecidableEq, Repr

/-- The exported type of a contract. -/
def ExportedType.ofContract (c : BoundContract) : ExportedType :=
  { name := c.name, members := c.methods.map .ofMethod }

/-- The layout of an exported type. -/
def ExportedType.steps (emitDocs : Bool) (t : ExportedType) : List Step :=
  [.block ("export type " ++ t.name ++ " =") (t.members.flatMap (Member.steps emitDocs)), .blank]

/-- The content of an interface file. -/
structure InterfaceFile where
  module : String
  imports : List ImportLine
  types : List ExportedType
  deriving DecidableEq, Repr

namespace InterfaceFile

/-- The import of the wrappers that contracts use, if they use any. -/
def transportImport (transportModule : String) (cs : List BoundContract) : List ImportLine :=
  match wrappersOf cs with
  | [] => []
  | ws => [{ names := ws.map (·.identifier), source := transportModule }]

/-- The file of a module with its contracts. -/
def ofContracts (transportModule module : String) (cs : List BoundContract) : InterfaceFile :=
  { module
    imports := transportImport transportModule cs ++ importLines "../" (cs.flatMap (·.imports))
    types := cs.map .ofContract }

/-- The layout of an interface file. -/
def steps (emitDocs : Bool) (f : InterfaceFile) : List Step :=
  heading.map .line ++ f.imports.map (fun i => .line i.text) ++ [.blank]
    ++ f.types.flatMap (ExportedType.steps emitDocs)

/-- The files for contracts, in ascending order of their modules. Inside of a file the contracts
keep their order. -/
def all (transportModule : String) (cs : List BoundContract) : List InterfaceFile :=
  (Ascending.group ((firstOccurrences [] cs).map fun c => (moduleName c.nameSpace, c))).map
    fun (module, members) => ofContracts transportModule module members

end InterfaceFile

/-- The text of steps in the layout of the settings. -/
def renderSteps (settings : Settings) (steps : List Step) : String :=
  Text.normalizeBreaks settings.output.lineEnding (Text.layout settings.indentUnit steps)

/-- The path of a file in the output directory. -/
def pathOf (settings : Settings) (file : String) : String :=
  settings.output.directory ++ "/" ++ file

/-- An interface file as text. -/
def InterfaceFile.toSource (settings : Settings) (f : InterfaceFile) : SourceFile :=
  { path := pathOf settings (f.module ++ ".ts")
    content := renderSteps settings (f.steps settings.output.emitDocs) }

/-- The interface files for contracts as texts. -/
def interfaceSources (settings : Settings) (cs : List BoundContract) : List SourceFile :=
  (InterfaceFile.all settings.output.transportModule cs).map (·.toSource settings)

end Client

end HubBindings
