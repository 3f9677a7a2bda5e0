import HubBindings.TypeGraph.Basic

/-!
Questions about a type graph. An address that the graph never issued has no answer, so most of the
questions return an `Option`; on the addresses that a graph has issued they always have one.

Names of array types and texts of constructed types are found by going down the type. A chain of
distinct types is at most as long as the graph, which bounds the search.
-/

namespace HubBindings.TypeGraph

variable (g : TypeGraph)

/-- The type at an address. -/
def symbol? (ty : TypeId) : Option TypeSymbol := g.types[ty.index]?

/-- The method at an address. -/
def method? (m : MethodId) : Option Method := g.methods[m.index]?

/-- The number of types. -/
def typeCount : Nat := g.types.size

/-- The first declared type with a metadata name. -/
def lookup (metadataName : String) : Option TypeId := g.definitions.lookup metadataName

/-- The definition that a constructed type comes from; any other type is its own definition. -/
def definition? (ty : TypeId) : Option TypeId :=
  (g.symbol? ty).map fun s => s.form.definition ty

/-- The type arguments of a type. -/
def arguments? (ty : TypeId) : Option (List TypeId) :=
  (g.symbol? ty).map fun s => s.form.arguments

/-- The first type argument of a type, if it has any. -/
def firstArgument? (ty : TypeId) : Option (Option TypeId) :=
  (g.arguments? ty).map fun as => as.head?

/-- The element type of a type, if it is an array. -/
def element? (ty : TypeId) : Option (Option TypeId) :=
  (g.symbol? ty).map fun s => s.form.element?

/-- The head of a type. A constructed type has the names of its definition. -/
def head? (ty : TypeId) : Option TypeHead :=
  match g.symbol? ty with
  | none => none
  | some s =>
    match s.form with
    | .declared h => some h
    | .array _ => some .ofArray
    | .constructed d _ =>
      (g.symbol? d).map fun origin =>
        match origin.form with
        | .declared h => h.instantiated
        | _ => .ofArray

/-- The kind of a type. -/
def kind? (ty : TypeId) : Option TypeKind := (g.head? ty).map (·.kind)

/-- The number of type parameters of a type. -/
def arity? (ty : TypeId) : Option Nat := (g.head? ty).map (·.arity)

/-- Whether a type has type parameters or type arguments. -/
def isGeneric? (ty : TypeId) : Option Bool := do
  let arity ← g.arity? ty
  let arguments ← g.arguments? ty
  return arity > 0 || !arguments.isEmpty

/-! ## Names -/

/-- The innermost element type of a type and the number of array types around it, found in at most
`room` steps. -/
def peelWithin : (room : Nat) → TypeId → Option (TypeId × Nat)
  | 0, _ => none
  | room + 1, ty =>
    match g.element? ty with
    | none => none
    | some none => some (ty, 0)
    | some (some e) => (peelWithin room e).map fun (root, rank) => (root, rank + 1)

/-- The innermost element type of a type and the number of array types around it. -/
def peel? (ty : TypeId) : Option (TypeId × Nat) := g.peelWithin g.typeCount ty

/-- The simple name of a type; an array has the name of its innermost element. -/
def name? (ty : TypeId) : Option String := do
  let (root, _) ← g.peel? ty
  return (← g.head? root).name

/-- The namespace of a type; an array has the namespace of its innermost element. -/
def nameSpace? (ty : TypeId) : Option String := do
  let (root, _) ← g.peel? ty
  return (← g.head? root).nameSpace

/-- The qualified name of a type; an array has the one of its innermost element. -/
def qualifiedName? (ty : TypeId) : Option String := do
  let (root, _) ← g.peel? ty
  return (← g.head? root).qualifiedName

/-- The metadata name of a type: that of its definition, with a pair of brackets for each array
type around it. -/
def metadataName? (ty : TypeId) : Option String := do
  let (root, rank) ← g.peel? ty
  let h ← g.head? (← g.definition? root)
  return h.metadataName ++ String.join (List.replicate rank "[]")

/-- The text of a type in the host language, found in at most `room` levels. -/
def displayWithin : (room : Nat) → TypeId → Option String
  | 0, _ => none
  | room + 1, ty => do
    let s ← g.symbol? ty
    match s.form with
    | .array e => return (← displayWithin room e) ++ "[]"
    | .declared h => return h.keyword.getD h.qualifiedName
    | .constructed _ arguments =>
      let h ← g.head? ty
      if arguments.isEmpty then return h.qualifiedName
      else
        let texts ← arguments.mapM (displayWithin room)
        return h.qualifiedName ++ "<" ++ ", ".intercalate texts ++ ">"

/-- The text of a type in the host language: a keyword or the qualified name, type arguments in
angle brackets, a pair of brackets after the element of an array. -/
def display? (ty : TypeId) : Option String := g.displayWithin g.typeCount ty

/-! ## Members -/

/-- The symbol that carries the members of a type: that of its definition. -/
def memberSymbol? (ty : TypeId) : Option TypeSymbol := do
  g.symbol? (← g.definition? ty)

/-- The attributes of a type. -/
def attributes? (ty : TypeId) : Option (List TypeId) := (g.memberSymbol? ty).map (·.attributes)

/-- The bases that a type names itself. -/
def bases? (ty : TypeId) : Option (List TypeId) := (g.memberSymbol? ty).map (·.bases)

/-- Whether a method is ordinary. -/
def isOrdinary (m : MethodId) : Bool := (g.method? m).any fun x => x.kind = .ordinary

/-- The ordinary methods that a type declares itself. -/
def methods? (ty : TypeId) : Option (List MethodId) :=
  (g.memberSymbol? ty).map fun s => s.methods.filter g.isOrdinary

/-! ## Declarations -/

/-- Whether a type is declared in the program itself. -/
def isSource (ty : TypeId) : Bool := (g.head? ty).any fun h => h.origin = .source

/-- The declared types of a scope, in the order of their declarations. -/
def declaredIn : Scope → List TypeId
  | .source => g.declared.filter g.isSource
  | .sourceAndReferenced => g.declared

/-- The declared types with a metadata name, in the order of their declarations. -/
def declaredAs (metadataName : String) : List TypeId :=
  g.declared.filter fun ty => g.metadataName? ty == some metadataName

/-- The fragments of a type: all declarations with the metadata name of its definition, or the
definition alone if there is none. -/
def fragments? (ty : TypeId) : Option (List TypeId) := do
  let d ← g.definition? ty
  match g.declaredAs (← g.metadataName? d) with
  | [] => return [d]
  | fragments => return fragments

/-- Whether a fragment of a type carries an attribute. -/
def hasAttribute? (ty marker : TypeId) : Option Bool :=
  (g.fragments? ty).map fun fragments =>
    fragments.any fun f => (g.attributes? f).any (·.contains marker)

/-- The declared types of a scope with an attribute on some fragment. -/
def annotated (scope : Scope) (marker : TypeId) : List TypeId :=
  (g.declaredIn scope).filter fun ty => g.hasAttribute? ty marker == some true

/-- Whether a type is constructed from a definition, with at least one argument. A definition that
does not exist constructs nothing. -/
def isConstructedFrom? (ty : TypeId) : Option TypeId → Option Bool
  | none => some false
  | some d => do
    let arguments ← g.arguments? ty
    let definition ← g.definition? ty
    return !arguments.isEmpty && definition = d

end HubBindings.TypeGraph
