import HubBindings.TypeGraph.Error
import HubBindings.TypeGraph.Query

/-!
Building type graphs. Every operation only adds: declared types, attributes, bases and methods, and
constructed and array types, of which there is one for each definition with arguments and one for
each element.
-/

namespace HubBindings

/-- A declaration of a type with its members. -/
structure Declaration where
  head : TypeHead
  attributes : List TypeId := []
  bases : List TypeId := []
  methods : List Method := []
  deriving DecidableEq, Repr

/-- Operations that extend a graph and may fail. What was added before a failure stays. There is no
result at all if an operation meets an address that was never issued. -/
abbrev GraphM := ExceptT GraphError (StateT TypeGraph Option)

namespace TypeGraph

/-- The address of the next type. -/
def nextType (g : TypeGraph) : TypeId := ⟨g.types.size⟩

/-- The address of the next method. -/
def nextMethod (g : TypeGraph) : MethodId := ⟨g.methods.size⟩

/-- Declares a type. A metadata name stays with the first type declared under it. -/
def declare (d : Declaration) (g : TypeGraph) : TypeId × TypeGraph :=
  let ty := g.nextType
  let name := d.head.metadataName
  let symbol : TypeSymbol :=
    { form := .declared d.head
      attributes := d.attributes
      bases := d.bases
      methods := d.methods.zipIdx.map fun (_, i) => ⟨g.methods.size + i⟩ }
  (ty,
    { g with
      types := g.types.push symbol
      methods := g.methods ++ d.methods.toArray
      declared := g.declared ++ [ty]
      definitions :=
        if (g.lookup name).isSome then g.definitions else g.definitions ++ [(name, ty)] })

/-- Changes the symbol at an address. -/
def modify? (ty : TypeId) (change : TypeSymbol → TypeSymbol) (g : TypeGraph) : Option TypeGraph :=
  if ty.index < g.types.size then some { g with types := g.types.modify ty.index change }
  else none

/-- Attaches an attribute to a type. -/
def addAttribute? (ty marker : TypeId) (g : TypeGraph) : Option TypeGraph :=
  g.modify? ty fun s => { s with attributes := s.attributes ++ [marker] }

/-- Attaches a base to a type. -/
def addBase? (ty base : TypeId) (g : TypeGraph) : Option TypeGraph :=
  g.modify? ty fun s => { s with bases := s.bases ++ [base] }

/-- Attaches a method to a type. -/
def addMethod? (ty : TypeId) (m : Method) (g : TypeGraph) : Option (MethodId × TypeGraph) :=
  (g.modify? ty fun s => { s with methods := s.methods ++ [g.nextMethod] }).map fun g' =>
    (g.nextMethod, { g' with methods := g.methods.push m })

/-- The first declared type with a metadata name. -/
def require (metadataName : String) : GraphM TypeId := do
  match (← get).lookup metadataName with
  | some ty => return ty
  | none => throw (.unresolvedType metadataName)

/-- The type constructed from the definition of a type with the given arguments. -/
def construct (type : TypeId) (arguments : List TypeId) : GraphM TypeId := do
  let g ← get
  let d ← liftM (g.definition? type)
  let arity ← liftM (g.arity? d)
  if arity ≠ arguments.length then
    throw (.arityMismatch (← liftM (g.metadataName? d)) arity arguments.length)
  match g.constructions.lookup (d, arguments) with
  | some ty => return ty
  | none =>
    set { g with
      types := g.types.push { form := .constructed d arguments }
      constructions := g.constructions ++ [((d, arguments), g.nextType)] }
    return g.nextType

/-- The type constructed from the definition with a metadata name. -/
def constructNamed (metadataName : String) (arguments : List TypeId) : GraphM TypeId := do
  construct (← require metadataName) arguments

/-- The array type of an element type. -/
def arrayOf (element : TypeId) : GraphM TypeId := do
  let g ← get
  match g.arrays.lookup element with
  | some ty => return ty
  | none =>
    let _ ← liftM (g.symbol? element)
    set { g with
      types := g.types.push { form := .array element }
      arrays := g.arrays ++ [(element, g.nextType)] }
    return g.nextType

end TypeGraph

end HubBindings
