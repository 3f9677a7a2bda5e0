import HubBindings.Settings.Basic
import HubBindings.Settings.Error
import HubBindings.TypeGraph.Query

/-!
The well-known types of a run. Tasks, streams and the cancellation token may be missing from a
program, and then nothing is one of them; the markers have to be there.
-/

namespace HubBindings

/-- The well-known types of a graph. -/
structure WellKnown where
  task : Option TypeId
  genericTask : Option TypeId
  asyncEnumerable : Option TypeId
  channelReader : Option TypeId
  cancellationToken : Option TypeId
  hubMarker : TypeId
  receiverMarker : TypeId
  dataTypeMarker : TypeId
  deriving DecidableEq, Repr

namespace WellKnown

/-- A marker that has to be declared. -/
def marker (g : TypeGraph) (name : String) : Except SettingsError TypeId :=
  match g.lookup name with
  | some ty => .ok ty
  | none => .error (.missingMarker name)

/-- Finds the well-known types by their metadata names. -/
def resolve (g : TypeGraph) (names : WellKnownNames) : Except SettingsError WellKnown := do
  let hubMarker ← marker g names.hubMarker
  let receiverMarker ← marker g names.receiverMarker
  let dataTypeMarker ← marker g names.dataTypeMarker
  return {
    task := g.lookup names.task
    genericTask := g.lookup names.genericTask
    asyncEnumerable := g.lookup names.asyncEnumerable
    channelReader := g.lookup names.channelReader
    cancellationToken := g.lookup names.cancellationToken
    hubMarker, receiverMarker, dataTypeMarker }

/-- Whether a type is the task without a result. -/
def isTask (w : WellKnown) (ty : TypeId) : Bool := w.task = some ty

/-- Whether a type is the cancellation token. -/
def isCancellationToken (w : WellKnown) (ty : TypeId) : Bool := w.cancellationToken = some ty

/-- Whether a type is a task with a result. -/
def isGenericTask? (w : WellKnown) (g : TypeGraph) (ty : TypeId) : Option Bool :=
  g.isConstructedFrom? ty w.genericTask

/-- Whether a type is a stream: an asynchronous sequence or a channel reader. -/
def isStream? (w : WellKnown) (g : TypeGraph) (ty : TypeId) : Option Bool := do
  if ← g.isConstructedFrom? ty w.asyncEnumerable then return true
  else g.isConstructedFrom? ty w.channelReader

end WellKnown

end HubBindings
