import HubBindings.TypeGraph.Build

/-!
The standard types of the host runtime: primitives, collections, tasks, streams and the
cancellation token.
-/

namespace HubBindings.TypeGraph

/-- A type of the runtime. -/
def coreType (kind : TypeKind) (nameSpace name : String) (arity : Nat) : TypeHead :=
  { kind, nameSpace, name, arity, origin := .referenced }

/-- A primitive type, for which the host language has a word. -/
def primitive (kind : TypeKind) (name keyword : String) : TypeHead :=
  { coreType kind "System" name 0 with keyword := some keyword }

/-- A generic collection. -/
def collection (kind : TypeKind) (name : String) (arity : Nat) : TypeHead :=
  coreType kind "System.Collections.Generic" name arity

/-- The types of the runtime, in the order of their declarations. -/
def coreTypes : List TypeHead :=
  [primitive .classType "Object" "object",
   primitive .structType "Boolean" "bool",
   primitive .structType "Byte" "byte",
   primitive .structType "SByte" "sbyte",
   primitive .structType "Int16" "short",
   primitive .structType "UInt16" "ushort",
   primitive .structType "Int32" "int",
   primitive .structType "UInt32" "uint",
   primitive .structType "Int64" "long",
   primitive .structType "UInt64" "ulong",
   primitive .structType "Single" "float",
   primitive .structType "Double" "double",
   primitive .structType "Decimal" "decimal",
   primitive .structType "Char" "char",
   primitive .classType "String" "string",
   coreType .structType "System" "Guid" 0,
   coreType .classType "System" "Uri" 0,
   coreType .structType "System" "DateTime" 0,
   coreType .structType "System" "DateTimeOffset" 0,
   coreType .structType "System" "Nullable" 1,
   coreType .structType "System" "ArraySegment" 1,
   collection .classType "List" 1,
   collection .classType "LinkedList" 1,
   collection .classType "Queue" 1,
   collection .classType "Stack" 1,
   collection .classType "HashSet" 1,
   collection .interface "IEnumerable" 1,
   collection .interface "IReadOnlyCollection" 1,
   collection .interface "IReadOnlyList" 1,
   collection .interface "ICollection" 1,
   collection .interface "IList" 1,
   collection .interface "ISet" 1,
   collection .classType "Dictionary" 2,
   collection .interface "IDictionary" 2,
   collection .interface "IReadOnlyDictionary" 2,
   collection .interface "IAsyncEnumerable" 1,
   coreType .classType "System.Threading.Tasks" "Task" 0,
   coreType .classType "System.Threading.Tasks" "Task" 1,
   coreType .classType "System.Threading.Channels" "ChannelReader" 1,
   coreType .structType "System.Threading" "CancellationToken" 0]

/-- The graph that holds the types of the runtime and nothing else. -/
def core : TypeGraph := coreTypes.foldl (fun g h => (g.declare { head := h }).2) {}

end HubBindings.TypeGraph
