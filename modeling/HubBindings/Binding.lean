import HubBindings.Contract
import HubBindings.Rendering.Render

/-!
Bindings: contracts with every type rendered. A method that its role does not admit, or with a type
that cannot be rendered, is left out and reported; it leaves no reference behind. Binding does not
depend on how types are rendered, so it takes any `Renderer`.
-/

namespace HubBindings

/-- A data type that a file refers to by name. -/
structure TypeImport where
  nameSpace : String
  name : String
  deriving DecidableEq, Repr

instance : Ord TypeImport :=
  ⟨fun a b => (compare a.nameSpace b.nameSpace).then (compare a.name b.name)⟩

/-- A parameter with its type rendered. -/
structure BoundParameter where
  name : String
  text : String
  /-- Text of the type in the host language. -/
  display : String
  deriving DecidableEq, Repr

/-- A method with its types rendered. -/
structure BoundMethod where
  localName : String
  wireName : String
  shape : CallShape
  /-- Parameters without cancellation tokens. -/
  parameters : List BoundParameter
  returnText : String
  /-- Text of the return type in the host language. -/
  returnDisplay : String
  deriving DecidableEq, Repr

/-- Names and types of the parameters, as in a signature. -/
def BoundMethod.parameterList (m : BoundMethod) : String :=
  ", ".intercalate (m.parameters.map fun p => p.name ++ ": " ++ p.text)

/-- Names of the parameters. -/
def BoundMethod.argumentNames (m : BoundMethod) : List String := m.parameters.map (·.name)

/-- Names of the parameters, as in a call. -/
def BoundMethod.argumentList (m : BoundMethod) : String := ", ".intercalate m.argumentNames

/-- A contract with its types rendered. -/
structure BoundContract where
  name : String
  nameSpace : String
  qualifiedName : String
  role : Role
  methods : List BoundMethod
  /-- Wrappers that some method uses, in ascending order. -/
  wrappers : List Wrapper
  /-- Data types that some method uses, in ascending order. -/
  imports : List TypeImport
  deriving DecidableEq, Repr

namespace Binding

variable (g : TypeGraph) (w : WellKnown) (render : Renderer)

/-- The position of the return types of a role. -/
def returnPosition : Role → Position
  | .hub => .hubReturn
  | .receiver => .receiverReturn

/-- The diagnostic for a shape that the role does not admit. -/
def shapeReport (c : Contract) (m : ContractMethod) (message : String) : Diagnostic :=
  { kind := .shapeViolation, subject := c.qualifiedName, method := some m.wireName, message }

/-- The diagnostic for a type that cannot be rendered, of a parameter or of the result. -/
def typeReport (c : Contract) (m : ContractMethod) (parameter : Option String) (e : RenderError) :
    Diagnostic :=
  { kind := .unsupportedType
    subject := c.qualifiedName
    method := some m.wireName
    parameter
    message := e.message }

/-- Binds parameters in order and stops at the first that cannot be rendered. `references` holds
what the parameters before refer to. -/
def bindParametersBy? (c : Contract) (m : ContractMethod) (references : References) :
    List Parameter → Option (Except Diagnostic (List BoundParameter × References))
  | [] => some (.ok ([], references))
  | p :: rest => do
    match ← render .argument p.type with
    | .error e => return .error (typeReport c m (some p.name) e)
    | .ok r =>
      let display ← g.display? p.type
      match ← bindParametersBy? c m (references.union r.references) rest with
      | .error d => return .error d
      | .ok (bound, all) => return .ok ({ name := p.name, text := r.text, display } :: bound, all)

/-- The parameters that a method has on the wire. -/
def wireParameters (m : ContractMethod) : List Parameter :=
  m.parameters.filter fun p => !w.isCancellationToken p.type

/-- Binds a method, or tells why it is left out. -/
def bindMethodBy? (c : Contract) (m : ContractMethod) :
    Option (Except Diagnostic (BoundMethod × References)) := do
  match ← Call.violation? g w c.role m.call.shape m.returns with
  | some message => return .error (shapeReport c m message)
  | none =>
    match ← bindParametersBy? g render c m {} (wireParameters w m) with
    | .error d => return .error d
    | .ok (parameters, references) =>
      match ← render (returnPosition c.role) m.returns with
      | .error e => return .error (typeReport c m none e)
      | .ok r =>
        let bound : BoundMethod :=
          { localName := m.localName
            wireName := m.wireName
            shape := m.call.shape
            parameters
            returnText := r.text
            returnDisplay := ← g.display? m.returns }
        return .ok (bound, references.union r.references)

/-- The import of a data type. -/
def import? (ty : TypeId) : Option TypeImport := do
  return { nameSpace := ← g.nameSpace? ty, name := ← g.name? ty }

/-- The methods that were bound. -/
def kept {α : Type} (outcomes : List (Except Diagnostic α)) : List α :=
  outcomes.filterMap fun
    | .ok a => some a
    | .error _ => none

/-- The reports about methods that were left out. -/
def reports {α : Type} (outcomes : List (Except Diagnostic α)) : List Diagnostic :=
  outcomes.filterMap fun
    | .ok _ => none
    | .error d => some d

/-- Binds a contract and reports the methods that are left out. -/
def bindBy? (c : Contract) : Option (BoundContract × List Diagnostic) := do
  let outcomes ← c.methods.mapM (bindMethodBy? g w render c)
  let bound := kept outcomes
  let references := bound.foldl (fun all (_, r) => all.union r) ({} : References)
  let imports ← references.dataTypes.mapM (import? g)
  let contract : BoundContract :=
    { name := c.name
      nameSpace := c.nameSpace
      qualifiedName := c.qualifiedName
      role := c.role
      methods := bound.map (·.1)
      wrappers := references.wrappers
      imports := Ascending.ofList imports }
  return (contract, reports outcomes)

/-- Binds contracts in order. -/
def bindAllBy? (cs : List Contract) : Option (List BoundContract × List Diagnostic) := do
  let bound ← cs.mapM (bindBy? g w render)
  return (bound.map (·.1), bound.flatMap (·.2))

/-! ## Binding by rules -/

variable (rules : List Rule)

def bindMethod? (c : Contract) (m : ContractMethod) :
    Option (Except Diagnostic (BoundMethod × References)) :=
  bindMethodBy? g w (renderAt? g w rules) c m

def bind? (c : Contract) : Option (BoundContract × List Diagnostic) :=
  bindBy? g w (renderAt? g w rules) c

def bindAll? (cs : List Contract) : Option (List BoundContract × List Diagnostic) :=
  bindAllBy? g w (renderAt? g w rules) cs

end Binding

end HubBindings
