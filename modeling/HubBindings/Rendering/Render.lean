import HubBindings.Rendering.Rule

/-!
Rendering types. A rendering goes down the type by the rules and keeps a context: where the current
type stands, and what the texts so far refer to. What was noted stays noted when a rendering fails.
-/

namespace HubBindings

/-- The state of a rendering. -/
structure Context where
  position : Position
  references : References := {}
  deriving DecidableEq, Repr

/-- Renderings: they may fail, and they have no result at all if they meet an address that was
never issued. -/
abbrev RenderM := ExceptT RenderError (StateT Context Option)

namespace RenderM

/-- Runs a rendering inside of another type; afterwards the position is as before. -/
def nested {α : Type} (x : RenderM α) : RenderM α :=
  ExceptT.mk fun c => (x.run { c with position := .nested }).map fun (r, c') =>
    (r, { c' with position := c.position })

/-- Notes a wrapper. -/
def noteWrapper (x : Wrapper) : RenderM Unit :=
  modify fun c => { c with references := c.references.addWrapper x }

/-- Notes the definition of a data type. -/
def noteDataType (g : TypeGraph) (ty : TypeId) : RenderM Unit := do
  let d ← liftM (g.definition? ty)
  modify fun c => { c with references := c.references.addDataType d }

/-- The first argument of a type that has to have one. -/
def typeArgument (g : TypeGraph) (ty : TypeId) : RenderM TypeId := do
  match ← liftM (g.firstArgument? ty) with
  | some a => return a
  | none => throw (.missingTypeArgument (← liftM (g.metadataName? ty)))

/-- Refuses a type. -/
def refuse (g : TypeGraph) (ty : TypeId) : RenderM String := do
  throw (.unsupported (← liftM (g.display? ty)))

end RenderM

open RenderM

/-- A text around another in angle brackets. -/
def inAngles (outer inner : String) : String := outer ++ "<" ++ inner ++ ">"

/-- Applies a custom rule; `render` renders other types. -/
def CustomRule.apply (g : TypeGraph) (render : TypeId → RenderM String) (ty : TypeId)
    (rule : CustomRule) : RenderM String :=
  match rule.action with
  | .text => return rule.text
  | .wrap => do
    let a ← typeArgument g ty
    return inAngles rule.text (← nested (render a))
  | .same => do
    let a ← typeArgument g ty
    return inAngles rule.text (← render a)
  | .position => do return rule.text ++ ":" ++ (← get).position.name
  | .data => do
    noteDataType g ty
    return rule.text
  | .subject => do
    noteWrapper .subject
    return rule.text
  | .fail => throw (.unsupported rule.text)

/-- Renders a collection; `render` renders other types. -/
def CollectionKind.apply (g : TypeGraph) (render : TypeId → RenderM String) (ty : TypeId) :
    CollectionKind → RenderM String
  | .array e => do return (← nested (render e)) ++ "[]"
  | .sequence => do
    let a ← typeArgument g ty
    return (← nested (render a)) ++ "[]"
  | .dictionary => do
    match ← liftM (g.arguments? ty) with
    | [key, value] =>
      let k ← nested (render key)
      let v ← nested (render value)
      return "\x7b [key: " ++ k ++ "]: " ++ v ++ " \x7d"
    | _ => throw (.missingTypeArgument (← liftM (g.metadataName? ty)))
  | .nullable => do
    let a ← typeArgument g ty
    return "(" ++ (← nested (render a)) ++ " | undefined)"

/-- Applies a rule to a type that it is in charge of; `render` renders other types. -/
def Rule.apply (g : TypeGraph) (w : WellKnown) (render : TypeId → RenderM String) (ty : TypeId) :
    Rule → RenderM String
  | .override texts => do
    match texts.lookup (← liftM (g.metadataName? ty)) with
    | some text => return text
    | none => refuse g ty
  | .custom rule => rule.apply g render ty
  | .task => return "Promise<void>"
  | .genericTask => do
    let inner ← typeArgument g ty
    if (← get).position = .hubReturn then
      if ← liftM (w.isStream? g inner) then
        let element ← typeArgument g inner
        noteWrapper .streamResult
        return inAngles Wrapper.streamResult.identifier (← nested (render element))
      else return inAngles "Promise" (← nested (render inner))
    else return inAngles "Promise" (← nested (render inner))
  | .stream => do
    let element ← typeArgument g ty
    let wrapper : Wrapper :=
      if (← get).position = .hubReturn then .streamResult else .subject
    noteWrapper wrapper
    return inAngles wrapper.identifier (← nested (render element))
  | .primitive => do
    match primitiveTexts.lookup (← liftM (g.metadataName? ty)) with
    | some text => return text
    | none => refuse g ty
  | .collection => do
    match ← liftM (CollectionKind.of? g ty) with
    | some kind => kind.apply g render ty
    | none => refuse g ty
  | .dataType => do
    let name ← liftM (g.name? ty)
    noteDataType g ty
    match ← liftM (g.arguments? ty) with
    | [] => return name
    | arguments =>
      let texts ← arguments.mapM fun a => nested (render a)
      return inAngles name (", ".intercalate texts)

/-- Renders a type by the first rule in charge of it, going down at most `room` levels. -/
def renderWithin (g : TypeGraph) (w : WellKnown) (rules : List Rule) :
    (room : Nat) → TypeId → RenderM String
  | 0, _ => liftM (none : Option String)
  | room + 1, ty => do
    match ← liftM (Rule.find? g w rules ty) with
    | some rule => rule.apply g w (renderWithin g w rules room) ty
    | none => refuse g ty

/-- Renders a type at the position of the context. -/
def renderType (g : TypeGraph) (w : WellKnown) (rules : List Rule) (ty : TypeId) :
    RenderM String :=
  renderWithin g w rules g.typeCount ty

/-- A rendered type and what its text refers to. -/
structure Rendered where
  text : String
  references : References
  deriving DecidableEq, Repr

/-- A way to render the types of a graph where they stand. -/
abbrev Renderer := Position → TypeId → Option (Except RenderError Rendered)

/-- Renders a type at a position. -/
def renderAt? (g : TypeGraph) (w : WellKnown) (rules : List Rule) (position : Position)
    (ty : TypeId) : Option (Except RenderError Rendered) :=
  ((renderType g w rules ty).run { position }).map fun (r, c) =>
    r.map fun text => { text, references := c.references }

end HubBindings
