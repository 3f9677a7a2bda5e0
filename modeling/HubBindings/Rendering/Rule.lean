import HubBindings.Rendering.Basic
import HubBindings.WellKnown

/-!
Rendering rules and the types they are in charge of. Rules form a list, and the first rule in charge
of a type renders it.
-/

namespace HubBindings

/-- What a custom rule does with a type. These are the rules that a run can be given by name; what
does not depend on rules is said for any `Renderer`. -/
inductive CustomAction where
  /-- Gives its text. -/
  | text
  /-- Puts its text around the first argument, which is rendered as nested. -/
  | wrap
  /-- Puts its text around the first argument, which is rendered where the type stands. -/
  | same
  /-- Gives its text and the position. -/
  | position
  /-- Gives its text and notes the type as a data type. -/
  | data
  /-- Gives its text and notes the wrapper of client streams. -/
  | subject
  /-- Refuses the type. -/
  | fail
  deriving DecidableEq, Repr

/-- A rule for the types with one metadata name, or for all types if the pattern is `*`. -/
structure CustomRule where
  pattern : String
  action : CustomAction
  text : String
  deriving DecidableEq, Repr

/-- A rendering rule. -/
inductive Rule where
  /-- Fixed texts by metadata name. -/
  | override (texts : List (String × String))
  | custom (rule : CustomRule)
  | task
  | genericTask
  | stream
  | primitive
  | collection
  | dataType
  deriving DecidableEq, Repr

namespace Rule

/-- The name of a rule. -/
def name : Rule → String
  | override _ => "override"
  | custom _ => "custom"
  | task => "task"
  | genericTask => "generic-task"
  | stream => "stream"
  | primitive => "primitive"
  | collection => "collection"
  | dataType => "data-type"

/-- The rules that every run has, in their order. -/
def builtin : List Rule := [task, genericTask, stream, primitive, collection, dataType]

/-- A list of rules by their names, in one line. -/
def summary (rules : List Rule) : String :=
  "MapperChain \x7b mappers: ["
    ++ ", ".intercalate (rules.map fun r => "\"" ++ r.name ++ "\"") ++ "] \x7d"

end Rule

/-! ## Tables of the built-in rules -/

/-- Texts of primitive types by metadata name. -/
def primitiveTexts : List (String × String) :=
  [("System.Boolean", "boolean"),
   ("System.Byte", "number"),
   ("System.SByte", "number"),
   ("System.Int16", "number"),
   ("System.UInt16", "number"),
   ("System.Int32", "number"),
   ("System.UInt32", "number"),
   ("System.Int64", "number"),
   ("System.UInt64", "number"),
   ("System.Single", "number"),
   ("System.Double", "number"),
   ("System.Decimal", "number"),
   ("System.Char", "string"),
   ("System.String", "string"),
   ("System.Guid", "string"),
   ("System.Uri", "string"),
   ("System.DateTime", "(Date | string)"),
   ("System.DateTimeOffset", "(Date | string)"),
   ("System.Object", "any")]

/-- Metadata names of the types that become arrays of their argument. -/
def sequenceNames : List String :=
  ["System.ArraySegment`1",
   "System.Collections.Generic.List`1",
   "System.Collections.Generic.LinkedList`1",
   "System.Collections.Generic.Queue`1",
   "System.Collections.Generic.Stack`1",
   "System.Collections.Generic.HashSet`1",
   "System.Collections.Generic.IEnumerable`1",
   "System.Collections.Generic.IReadOnlyCollection`1",
   "System.Collections.Generic.IReadOnlyList`1",
   "System.Collections.Generic.ICollection`1",
   "System.Collections.Generic.IList`1",
   "System.Collections.Generic.ISet`1"]

/-- Metadata names of the types that become objects with one type of keys and one of values. -/
def dictionaryNames : List String :=
  ["System.Collections.Generic.Dictionary`2",
   "System.Collections.Generic.IDictionary`2",
   "System.Collections.Generic.IReadOnlyDictionary`2"]

/-- The metadata name of the type that makes its argument optional. -/
def nullableName : String := "System.Nullable`1"

/-- What kind of collection a type is. -/
inductive CollectionKind where
  | array (element : TypeId)
  | sequence
  | dictionary
  | nullable
  deriving DecidableEq, Repr

/-- The kind of collection that a metadata name stands for. -/
def CollectionKind.ofName? (name : String) : Option CollectionKind :=
  if sequenceNames.contains name then some .sequence
  else if dictionaryNames.contains name then some .dictionary
  else if name = nullableName then some .nullable
  else none

/-- The kind of collection that a type is, if it is one: an array, or a constructed type with a
known name. -/
def CollectionKind.of? (g : TypeGraph) (ty : TypeId) : Option (Option CollectionKind) := do
  match ← g.element? ty with
  | some e => return some (.array e)
  | none =>
    if (← g.arguments? ty).isEmpty then return none
    else return CollectionKind.ofName? (← g.metadataName? ty)

namespace Rule

variable (g : TypeGraph) (w : WellKnown)

/-- Whether a rule is in charge of a type. -/
def claims? (ty : TypeId) : Rule → Option Bool
  | override texts => do return (texts.lookup (← g.metadataName? ty)).isSome
  | custom rule =>
    if rule.pattern = "*" then some true
    else do return (← g.metadataName? ty) = rule.pattern
  | task => some (w.isTask ty)
  | genericTask => w.isGenericTask? g ty
  | stream => w.isStream? g ty
  | primitive => do return (primitiveTexts.lookup (← g.metadataName? ty)).isSome
  | collection => do return (← CollectionKind.of? g ty).isSome
  | dataType => do
    if (← g.element? ty).isSome then return false
    else g.hasAttribute? ty w.dataTypeMarker

/-- The first rule in charge of a type. -/
def find? (rules : List Rule) (ty : TypeId) : Option (Option Rule) :=
  rules.findM? fun r => r.claims? g w ty

end Rule

end HubBindings
