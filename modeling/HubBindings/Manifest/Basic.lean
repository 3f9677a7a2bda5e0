import HubBindings.TypeGraph.Basic

/-!
Manifests: the description of a type graph that a compiler writes down. Types refer to each other by
metadata name, so the order of the entries does not matter for references.
-/

namespace HubBindings

/-- A reference to a type. -/
inductive TypeRef where
  | named (name : String)
  | generic (definition : String) (arguments : List TypeRef)
  | array (element : TypeRef)

namespace Manifest

/-- A parameter of a described method. -/
structure ParameterEntry where
  name : String
  type : TypeRef

/-- A described method. -/
structure MethodEntry where
  name : String
  kind : MethodKind := .ordinary
  parameters : List ParameterEntry := []
  returns : TypeRef

/-- A described type. -/
structure TypeEntry where
  name : String
  nameSpace : String := ""
  kind : TypeKind
  origin : Origin := .source
  typeParameters : Nat := 0
  /-- Metadata names of the attributes. -/
  attributes : List String := []
  bases : List TypeRef := []
  methods : List MethodEntry := []

/-- What the declaration of an entry is called and what it is. -/
def TypeEntry.head (e : TypeEntry) : TypeHead :=
  { kind := e.kind
    nameSpace := e.nameSpace
    name := e.name
    origin := e.origin
    arity := e.typeParameters }

end Manifest

/-- A description of a type graph. Entries of one name are fragments of one type. -/
structure Manifest where
  /-- Whether the types of the runtime are there as well. -/
  coreLibrary : Bool := true
  types : List Manifest.TypeEntry := []

end HubBindings
