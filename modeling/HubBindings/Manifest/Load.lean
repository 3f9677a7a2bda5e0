import HubBindings.Manifest.Basic
import HubBindings.TypeGraph.CoreLibrary

/-!
From a manifest to a type graph. All entries are declared before any reference is resolved.
-/

namespace HubBindings

namespace TypeRef

mutual

/-- The type that a reference denotes, constructed if it is not there yet. -/
def resolve : TypeRef → GraphM TypeId
  | .named name => TypeGraph.require name
  | .generic definition arguments => do
    let d ← TypeGraph.require definition
    let as ← resolveAll arguments
    TypeGraph.construct d as
  | .array element => do
    let e ← resolve element
    TypeGraph.arrayOf e

/-- The types that references denote, resolved in order. -/
def resolveAll : List TypeRef → GraphM (List TypeId)
  | [] => return []
  | r :: rest => do
    let ty ← resolve r
    let tys ← resolveAll rest
    return ty :: tys

end

end TypeRef

namespace Manifest

/-- Declares an entry, without its members. All entries of one metadata name have one kind. -/
def TypeEntry.declare (e : TypeEntry) : GraphM TypeId := do
  let (ty, g) := (← get).declare { head := e.head }
  set g
  let first ← TypeGraph.require e.head.metadataName
  let kind ← liftM (g.kind? first)
  if kind = e.kind then return ty
  else throw (.duplicateDefinition e.head.metadataName kind.name e.kind.name)

/-- Resolves a parameter. -/
def ParameterEntry.resolve (p : ParameterEntry) : GraphM Parameter := do
  return { name := p.name, type := ← p.type.resolve }

/-- Resolves a method: its return type first, then its parameters. -/
def MethodEntry.resolve (m : MethodEntry) : GraphM Method := do
  let returns ← m.returns.resolve
  let parameters ← m.parameters.mapM ParameterEntry.resolve
  return { name := m.name, kind := m.kind, parameters, returns }

/-- Attaches the attribute with a metadata name to a type. -/
def attachAttribute (ty : TypeId) (name : String) : GraphM Unit := do
  let marker ← TypeGraph.require name
  set (← liftM ((← get).addAttribute? ty marker))

/-- Attaches the base that a reference denotes to a type. -/
def attachBase (ty : TypeId) (ref : TypeRef) : GraphM Unit := do
  let base ← ref.resolve
  set (← liftM ((← get).addBase? ty base))

/-- Attaches a described method to a type. -/
def attachMethod (ty : TypeId) (entry : MethodEntry) : GraphM Unit := do
  let m ← entry.resolve
  let (_, g) ← liftM ((← get).addMethod? ty m)
  set g

/-- Attaches the members of an entry to its type: attributes, then bases, then methods. -/
def TypeEntry.attach (e : TypeEntry) (ty : TypeId) : GraphM Unit := do
  e.attributes.forM (attachAttribute ty)
  e.bases.forM (attachBase ty)
  e.methods.forM (attachMethod ty)

/-- The graph that a manifest starts from. -/
def base (m : Manifest) : TypeGraph := if m.coreLibrary then .core else {}

/-- Adds what a manifest describes to a graph. -/
def build (m : Manifest) : GraphM Unit := do
  let tys ← m.types.mapM TypeEntry.declare
  (m.types.zip tys).forM fun (e, ty) => e.attach ty

/-- The graph that a manifest describes. -/
def load (m : Manifest) : Option (Except GraphError TypeGraph) :=
  (m.build.run m.base).map fun
    | (.ok _, g) => .ok g
    | (.error e, _) => .error e

end Manifest

end HubBindings
