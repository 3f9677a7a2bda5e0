import HubBindings.Json.Reader
import HubBindings.Manifest.Basic

/-!
Manifests as JSON. A record is an object, in which unknown keys are skipped and a known key stands
at most once, or an array that gives the fields in order and may end early. A type reference is
tried in order as a name, as a generic type and as an array.
-/

namespace HubBindings

/-! ## Type references -/

namespace TypeRef

mutual

/-- Decodes a type reference: a text, an object with one `definition` and one `arguments` that
fit, or an object with one `array` that fits. Other keys do not matter. -/
def ofJson? : Json → Option TypeRef
  | .string s => some (.named s)
  | .object members =>
    match definitionOf members, argumentsOf members with
    | some d, some as => some (.generic d as)
    | _, _ => (elementOf members).map .array
  | _ => none

/-- Decodes a list of type references. -/
def ofJsonList? : List Json → Option (List TypeRef)
  | [] => some []
  | j :: rest =>
    match ofJson? j, ofJsonList? rest with
    | some r, some rs => some (r :: rs)
    | _, _ => none

/-- The text under `definition`. -/
def definitionOf (members : List (String × Json)) : Option String :=
  match Json.valuesUnder "definition" members with
  | [.string s] => some s
  | _ => none

/-- The references under `arguments`. -/
def argumentsOf : List (String × Json) → Option (List TypeRef)
  | [] => none
  | (key, j) :: rest =>
    if key = "arguments" then
      match Json.valuesUnder "arguments" rest, j with
      | [], .array items => ofJsonList? items
      | _, _ => none
    else argumentsOf rest

/-- The reference under `array`. -/
def elementOf : List (String × Json) → Option TypeRef
  | [] => none
  | (key, j) :: rest =>
    if key = "array" then
      if (Json.valuesUnder "array" rest).isEmpty then ofJson? j else none
    else elementOf rest

end

/-- Decodes a type reference that has to be readable in full. -/
def decode? (j : Json) : Option TypeRef := if j.isReadable then ofJson? j else none

mutual

/-- Encodes a type reference. -/
def toJson : TypeRef → Json
  | .named name => .string name
  | .generic d as => .object [("definition", .string d), ("arguments", .array (toJsonList as))]
  | .array e => .object [("array", toJson e)]

/-- Encodes a list of type references. -/
def toJsonList : List TypeRef → List Json
  | [] => []
  | r :: rest => toJson r :: toJsonList rest

end

end TypeRef

namespace Manifest

/-! ## Fields -/

/-- The fields of a record, by name from an object or by position from an array. -/
def fieldsOf (names : List String) : Json → Option (List (Option Json))
  | .object members =>
    names.mapM fun name =>
      match Json.valuesUnder name members with
      | [] => some none
      | [j] => some (some j)
      | _ => none
  | .array items =>
    if items.length ≤ names.length then some (names.zipIdx.map fun (_, i) => items[i]?) else none
  | _ => none

/-- A field that has to be there. -/
def required {α : Type} (decode : Json → Option α) : Option Json → Option α
  | none => none
  | some j => decode j

/-- A field that may be missing. -/
def optional {α : Type} (decode : Json → Option α) (default : α) : Option Json → Option α
  | none => some default
  | some j => decode j

/-- A text. -/
def text? : Json → Option String
  | .string s => some s
  | _ => none

/-- A truth value. -/
def flag? : Json → Option Bool
  | .bool b => some b
  | _ => none

/-- A count that fits 64 bits. -/
def count? : Json → Option Nat
  | .natural n => if n < Text.wordLimit then some n else none
  | _ => none

/-- A list of values of one kind. -/
def listOf? {α : Type} (decode : Json → Option α) : Json → Option (List α)
  | .array items => items.mapM decode
  | _ => none

/-- One of several named values: its name, or an object with `null` under its name. -/
def choice? {α : Type} (ofName? : String → Option α) : Json → Option α
  | .string s => ofName? s
  | .object [(name, .null)] => ofName? name
  | _ => none

/-! ## Records -/

/-- Decodes a parameter. -/
def ParameterEntry.ofJson? (j : Json) : Option ParameterEntry := do
  match ← fieldsOf ["name", "type"] j with
  | [name, type] =>
    return { name := ← required text? name, type := ← required TypeRef.decode? type }
  | _ => none

/-- Decodes a method. -/
def MethodEntry.ofJson? (j : Json) : Option MethodEntry := do
  match ← fieldsOf ["name", "kind", "parameters", "returns"] j with
  | [name, kind, parameters, returns] =>
    return {
      name := ← required text? name
      kind := ← optional (choice? MethodKind.ofName?) .ordinary kind
      parameters := ← optional (listOf? ParameterEntry.ofJson?) [] parameters
      returns := ← required TypeRef.decode? returns }
  | _ => none

/-- Decodes a type. -/
def TypeEntry.ofJson? (j : Json) : Option TypeEntry := do
  match ← fieldsOf ["name", "namespace", "kind", "origin", "type_parameters", "attributes",
      "bases", "methods"] j with
  | [name, nameSpace, kind, origin, typeParameters, attributes, bases, methods] =>
    return {
      name := ← required text? name
      nameSpace := ← optional text? "" nameSpace
      kind := ← required (choice? TypeKind.ofName?) kind
      origin := ← optional (choice? Origin.ofName?) .source origin
      typeParameters := ← optional count? 0 typeParameters
      attributes := ← optional (listOf? text?) [] attributes
      bases := ← optional (listOf? TypeRef.decode?) [] bases
      methods := ← optional (listOf? MethodEntry.ofJson?) [] methods }
  | _ => none

/-- Decodes a manifest. -/
def ofJson? (j : Json) : Option Manifest := do
  match ← fieldsOf ["core_library", "types"] j with
  | [coreLibrary, types] =>
    return {
      coreLibrary := ← optional flag? true coreLibrary
      types := ← optional (listOf? TypeEntry.ofJson?) [] types }
  | _ => none

/-- Reads a manifest from its text. -/
def parse? (s : String) : Option Manifest := (Json.parse? s).bind ofJson?

/-- Encodes a parameter. -/
def ParameterEntry.toJson (p : ParameterEntry) : Json :=
  .object [("name", .string p.name), ("type", p.type.toJson)]

/-- Encodes a method with all its fields. -/
def MethodEntry.toJson (m : MethodEntry) : Json :=
  .object [
    ("name", .string m.name),
    ("kind", .string m.kind.name),
    ("parameters", .array (m.parameters.map ParameterEntry.toJson)),
    ("returns", m.returns.toJson)]

/-- Encodes a type with all its fields. -/
def TypeEntry.toJson (e : TypeEntry) : Json :=
  .object [
    ("name", .string e.name),
    ("namespace", .string e.nameSpace),
    ("kind", .string e.kind.name),
    ("origin", .string e.origin.name),
    ("type_parameters", .natural e.typeParameters),
    ("attributes", .array (e.attributes.map .string)),
    ("bases", .array (TypeRef.toJsonList e.bases)),
    ("methods", .array (e.methods.map MethodEntry.toJson))]

/-- Encodes a manifest with all its fields. -/
def toJson (m : Manifest) : Json :=
  .object [("core_library", .bool m.coreLibrary), ("types", .array (m.types.map TypeEntry.toJson))]

end Manifest

end HubBindings
