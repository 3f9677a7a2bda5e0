import HubBindings.WellKnown

/-!
How a remote method is called. A method that returns a stream is a server stream, also when a task
is around the stream; otherwise a method with a stream among its parameters is a client stream; all
others are unary calls. Every method has a shape, and a separate check tells whether the role of
its interface admits it.
-/

namespace HubBindings

/-- The transport shape of a method. -/
inductive CallShape where
  | unary
  | serverStream
  | clientStream
  deriving DecidableEq, Repr

/-- The part an interface plays on a connection. -/
inductive Role where
  /-- Called by the client. -/
  | hub
  /-- Called by the server. -/
  | receiver
  deriving DecidableEq, Repr

/-- The name of a role. -/
def Role.name : Role → String
  | hub => "Hub"
  | receiver => "Receiver"

/-- A shape and the type that the call carries; a task without a result carries none. -/
structure Call where
  shape : CallShape
  payload : Option TypeId
  deriving DecidableEq, Repr

namespace Call

variable (g : TypeGraph) (w : WellKnown)

/-- The type inside the task and stream wrappers around a type. A task around a stream is two
wrappers, and there are never more. -/
def featured? (ty : TypeId) : Option TypeId := do
  if ← w.isStream? g ty then return (← g.firstArgument? ty).getD ty
  else if ← w.isGenericTask? g ty then
    match ← g.firstArgument? ty with
    | none => return ty
    | some inner =>
      if ← w.isStream? g inner then return (← g.firstArgument? inner).getD inner
      else return inner
  else return ty

/-- The result type of a task; nothing for any other type. -/
def taskResult? (ty : TypeId) : Option (Option TypeId) := do
  if ← w.isGenericTask? g ty then g.firstArgument? ty else return none

/-- Whether a type is a task around a stream. -/
def isTaskOfStream? (ty : TypeId) : Option Bool := do
  match ← taskResult? g w ty with
  | some inner => w.isStream? g inner
  | none => return false

/-- Whether a method that returns `ty` returns a stream. A channel reader counts only inside of a
task. -/
def returnsStream? (ty : TypeId) : Option Bool := do
  if ← g.isConstructedFrom? ty w.asyncEnumerable then return true
  else isTaskOfStream? g w ty

/-- The shape of a method and what it carries. -/
def classify? (m : Method) : Option Call := do
  let stream ← m.parameters.findM? fun p => w.isStream? g p.type
  if ← returnsStream? g w m.returns then
    return { shape := .serverStream, payload := some (← featured? g w m.returns) }
  else match stream with
    | some p => return { shape := .clientStream, payload := some (← featured? g w p.type) }
    | none =>
      if w.isTask m.returns then return { shape := .unary, payload := none }
      else return { shape := .unary, payload := some (← featured? g w m.returns) }

/-- What a hub may return, by shape. -/
def hubViolation? (shape : CallShape) (returns : TypeId) : Option (Option String) := do
  let returnsTask := w.isTask returns
  let returnsGenericTask ← w.isGenericTask? g returns
  match shape with
  | .serverStream => return none
  | .clientStream =>
    if returnsTask then return none
    else return some ("client-to-server streaming method must return Task, found "
      ++ (← g.display? returns))
  | .unary =>
    if returnsTask || returnsGenericTask then return none
    else return some ("hub method must return Task, Task<T>, or IAsyncEnumerable<T>, found "
      ++ (← g.display? returns))

/-- What a receiver may return, whatever the shape. -/
def receiverViolation? (returns : TypeId) : Option (Option String) := do
  let returnsTask := w.isTask returns
  let returnsGenericTask ← w.isGenericTask? g returns
  let streamsResult ← isTaskOfStream? g w returns
  if returnsTask || (returnsGenericTask && !streamsResult) then return none
  else return some ("receiver method must return Task or Task<T>, found " ++ (← g.display? returns))

/-- Why a method with a shape and a return type cannot be used in a role, if it cannot. -/
def violation? (role : Role) (shape : CallShape) (returns : TypeId) : Option (Option String) :=
  match role with
  | .hub => hubViolation? g w shape returns
  | .receiver => receiverViolation? g w returns

end Call

end HubBindings
