import HubBindings.Client.IndexFile
import HubBindings.Settings.Validation

/-!
Generation runs: from a type graph to files and diagnostics. A run fails only if its settings are
out of range or a marker is not declared; what goes wrong with single interfaces and methods is
reported beside the files.
-/

namespace HubBindings

/-- Why a run fails. -/
inductive GenerateError where
  | settings (e : SettingsError)
  deriving DecidableEq, Repr

/-- The cause of a failed run. -/
def GenerateError.cause : GenerateError → SettingsError
  | settings e => e

/-- The text of an error. -/
def GenerateError.message (e : GenerateError) : String :=
  "Configuration error: " ++ e.cause.message

/-- The result of a run: the interface files and then the index file, and what there is to
report. -/
structure Output where
  files : List SourceFile
  diagnostics : List Diagnostic
  deriving DecidableEq, Repr

/-- The file with a path. -/
def Output.file? (o : Output) (path : String) : Option SourceFile :=
  o.files.find? fun f => f.path == path

/-- Settings of a run, with rules that come before and after the built-in ones. -/
structure Generator where
  settings : Settings := {}
  rules : List CustomRule := []
  fallbacks : List CustomRule := []
  deriving DecidableEq, Repr

namespace Generator

/-- The scope of a run. -/
def scope (settings : Settings) : Scope :=
  if settings.types.includeReferenced then .sourceAndReferenced else .source

/-- The rules of a run: overrides, then the rules that come first, the built-in rules, and the
fallbacks. -/
def allRules (x : Generator) : List Rule :=
  (if x.settings.types.overrides.isEmpty then [] else [.override x.settings.types.overrides])
    ++ x.rules.map .custom ++ Rule.builtin ++ x.fallbacks.map .custom

/-- The hubs and receivers of a run with their types rendered, and the diagnostics. -/
structure Bindings where
  hubs : List BoundContract
  receivers : List BoundContract
  diagnostics : List Diagnostic
  deriving DecidableEq, Repr

/-- Binds the contracts of a program. Diagnostics come in the order of the work: discovery of hubs
and receivers, then binding of hubs and receivers. -/
def bindingsBy? (settings : Settings) (g : TypeGraph) (w : WellKnown) (render : Renderer) :
    Option Bindings := do
  let found ← Discovery.run? g w (scope settings) settings.methodStyle
  let (hubs, hubReports) ← Binding.bindAllBy? g w render found.hubs
  let (receivers, receiverReports) ← Binding.bindAllBy? g w render found.receivers
  return { hubs, receivers, diagnostics := found.diagnostics ++ hubReports ++ receiverReports }

/-- Binds the contracts of a program by the rules of a run. -/
def bindings? (x : Generator) (g : TypeGraph) (w : WellKnown) : Option Bindings :=
  bindingsBy? x.settings g w (renderAt? g w x.allRules)

/-- The files for the bindings of a run. -/
def emit (settings : Settings) (b : Bindings) : Output :=
  { files := Client.interfaceSources settings (b.hubs ++ b.receivers)
      ++ [Client.indexSource settings b.hubs b.receivers]
    diagnostics := b.diagnostics }

/-- What a run needs from its settings: they are valid, and the markers are declared. -/
def prepare (settings : Settings) (g : TypeGraph) : Except SettingsError WellKnown := do
  settings.validate
  WellKnown.resolve g settings.wellKnown

/-- Generates the files of a program with any way to render types. There is no result at all if the
graph refers to an address that it never issued. -/
def generateBy? (settings : Settings) (g : TypeGraph) (render : WellKnown → Renderer) :
    Option (Except GenerateError Output) :=
  match prepare settings g with
  | .error e => some (.error (.settings e))
  | .ok w => (bindingsBy? settings g w (render w)).map fun b => .ok (emit settings b)

/-- Runs the generator on a type graph, with its rules. -/
def generate? (x : Generator) (g : TypeGraph) : Option (Except GenerateError Output) :=
  generateBy? x.settings g fun w => renderAt? g w x.allRules

end Generator

end HubBindings
