/-!
The types and methods of a program as a graph. Types and methods are addressed by the place they
have in the order of their creation; nothing is ever removed, so an address stays good. A type is
declared by name, constructed from a generic definition, or an array.
-/

namespace HubBindings

/-- The address of a type. Addresses have no bound here; with addresses of 32 bits, what is said
about a graph holds as long as it has no more than `2 ^ 32` types. -/
structure TypeId where
  index : Nat
  deriving DecidableEq, Repr

/-- The address of a method, without a bound as well. -/
structure MethodId where
  index : Nat
  deriving DecidableEq, Repr

instance : Ord TypeId := ⟨fun a b => compare a.index b.index⟩

/-- A type's address as text. -/
def TypeId.label (ty : TypeId) : String := "type#" ++ toString ty.index

/-- What a type is in the host language. -/
inductive TypeKind where
  | classType
  | structType
  | interface
  | enumType
  | array
  deriving DecidableEq, Repr

/-- The name of a kind. -/
def TypeKind.name : TypeKind → String
  | classType => "class"
  | structType => "struct"
  | interface => "interface"
  | enumType => "enum"
  | array => "array"

/-- The kind with a given name. -/
def TypeKind.ofName? : String → Option TypeKind
  | "class" => some classType
  | "struct" => some structType
  | "interface" => some interface
  | "enum" => some enumType
  | "array" => some array
  | _ => none

theorem TypeKind.ofName?_name (k : TypeKind) : ofName? k.name = some k := by
  cases k <;> rfl

/-- Where a declaration comes from. -/
inductive Origin where
  /-- The program itself. -/
  | source
  /-- A module that the program refers to. -/
  | referenced
  deriving DecidableEq, Repr

/-- The name of an origin. -/
def Origin.name : Origin → String
  | source => "source"
  | referenced => "referenced"

/-- The origin with a given name. -/
def Origin.ofName? : String → Option Origin
  | "source" => some source
  | "referenced" => some referenced
  | _ => none

theorem Origin.ofName?_name (o : Origin) : ofName? o.name = some o := by
  cases o <;> rfl

/-- What a method is. Only ordinary methods can be called remotely. -/
inductive MethodKind where
  | ordinary
  | static
  | synthesized
  deriving DecidableEq, Repr

/-- The name of a method kind. -/
def MethodKind.name : MethodKind → String
  | ordinary => "ordinary"
  | static => "static"
  | synthesized => "synthesized"

/-- The method kind with a given name. -/
def MethodKind.ofName? : String → Option MethodKind
  | "ordinary" => some ordinary
  | "static" => some static
  | "synthesized" => some synthesized
  | _ => none

theorem MethodKind.ofName?_name (k : MethodKind) : ofName? k.name = some k := by
  cases k <;> rfl

/-- A parameter of a method. -/
structure Parameter where
  name : String
  type : TypeId
  deriving DecidableEq, Repr

/-- A method. -/
structure Method where
  name : String
  kind : MethodKind := .ordinary
  parameters : List Parameter := []
  returns : TypeId
  deriving DecidableEq, Repr

/-- What a declared type is called and what it is. -/
structure TypeHead where
  kind : TypeKind
  nameSpace : String := ""
  name : String
  origin : Origin := .source
  /-- Number of type parameters. -/
  arity : Nat := 0
  /-- Word of the host language for the type. -/
  keyword : Option String := none
  deriving DecidableEq, Repr

namespace TypeHead

/-- The name with the namespace in front, if there is one. -/
def qualifiedName (h : TypeHead) : String :=
  if h.nameSpace = "" then h.name else h.nameSpace ++ "." ++ h.name

/-- The qualified name, and the number of type parameters if there are any. -/
def metadataName (h : TypeHead) : String :=
  if h.arity = 0 then h.qualifiedName else h.qualifiedName ++ "`" ++ toString h.arity

/-- The head of an array type, which has no name of its own. -/
def ofArray : TypeHead := { kind := .array, name := "" }

/-- The head of a type constructed from a definition with head `h`. -/
def instantiated (h : TypeHead) : TypeHead := { h with arity := 0, keyword := none }

end TypeHead

/-- How a type is made up. -/
inductive TypeForm where
  | declared (head : TypeHead)
  | constructed (definition : TypeId) (arguments : List TypeId)
  | array (element : TypeId)
  deriving DecidableEq, Repr

namespace TypeForm

/-- The type arguments. -/
def arguments : TypeForm → List TypeId
  | constructed _ as => as
  | _ => []

/-- The element type of an array. -/
def element? : TypeForm → Option TypeId
  | array e => some e
  | _ => none

/-- The definition of a type with this form and the address `self`. -/
def definition (self : TypeId) : TypeForm → TypeId
  | constructed d _ => d
  | _ => self

end TypeForm

/-- A type with what is attached to it. -/
structure TypeSymbol where
  form : TypeForm
  attributes : List TypeId := []
  bases : List TypeId := []
  methods : List MethodId := []
  deriving DecidableEq, Repr

/-- The types and methods of a program. -/
structure TypeGraph where
  types : Array TypeSymbol := #[]
  methods : Array Method := #[]
  /-- Declared types in the order of their declarations. -/
  declared : List TypeId := []
  /-- The first declared type of each metadata name. -/
  definitions : List (String × TypeId) := []
  /-- The constructed type of each definition and argument list. -/
  constructions : List ((TypeId × List TypeId) × TypeId) := []
  /-- The array type of each element type. -/
  arrays : List (TypeId × TypeId) := []

/-- Which declarations count. -/
inductive Scope where
  | source
  | sourceAndReferenced
  deriving DecidableEq, Repr

end HubBindings
