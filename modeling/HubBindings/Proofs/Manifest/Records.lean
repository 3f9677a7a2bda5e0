import HubBindings.Proofs.Manifest.Reference
import Mathlib.Data.List.Nodup

/-!
Records as JSON. `Place` says what can stand at a place of a manifest, and `Place.fields` lists the
fields of a record: their names, what stands there and what a missing field stands for.

* `decode?_object` and `decode?_array` say what the two ways to write a record are read as;
* `roundTrips_record` reduces the round trip of a record to those of its fields, and
  `ofJson?_toJson` is the round trip of a manifest.
-/

namespace HubBindings.Manifest

open Sequencing
open Json (valuesUnder)

/-! ## Places -/

/-- What can stand at a place of a manifest. -/
inductive Place where
  | text
  | flag
  | count
  | typeKind
  | origin
  | methodKind
  | reference
  | parameter
  | method
  | type
  | manifest
  | listOf (p : Place)

namespace Place

/-- The values that are read there. -/
@[reducible] def Value : Place → Type
  | text => String
  | flag => Bool
  | count => Nat
  | typeKind => TypeKind
  | origin => Origin
  | methodKind => MethodKind
  | reference => TypeRef
  | parameter => ParameterEntry
  | method => MethodEntry
  | type => TypeEntry
  | manifest => Manifest
  | listOf p => List p.Value

/-- The decoder for the place. -/
def decode? : (p : Place) → Json → Option p.Value
  | text => text?
  | flag => flag?
  | count => count?
  | typeKind => choice? TypeKind.ofName?
  | origin => choice? Origin.ofName?
  | methodKind => choice? MethodKind.ofName?
  | reference => TypeRef.decode?
  | parameter => ParameterEntry.ofJson?
  | method => MethodEntry.ofJson?
  | type => TypeEntry.ofJson?
  | manifest => Manifest.ofJson?
  | listOf p => listOf? p.decode?

/-- The encoder for the place. -/
def encode : (p : Place) → p.Value → Json
  | text => .string
  | flag => .bool
  | count => .natural
  | typeKind => fun k => .string k.name
  | origin => fun o => .string o.name
  | methodKind => fun k => .string k.name
  | reference => TypeRef.toJson
  | parameter => ParameterEntry.toJson
  | method => MethodEntry.toJson
  | type => TypeEntry.toJson
  | manifest => Manifest.toJson
  | listOf p => fun as => .array (as.map p.encode)

end Place

/-- A field of a record. -/
structure Field (α : Type) where
  name : String
  place : Place
  /-- What a missing field stands for, if it may be missing. -/
  default : Option place.Value
  get : α → place.Value

/-- What a field is read as that may be missing. -/
def Field.decode {α : Type} (f : Field α) : Option Json → Option f.place.Value
  | none => f.default
  | some j => f.place.decode? j

/-- The fields of a record, in the order in which an array gives them. Other places have none. -/
def Place.fields : (p : Place) → List (Field p.Value)
  | .parameter => [⟨"name", .text, none, (·.name)⟩, ⟨"type", .reference, none, (·.type)⟩]
  | .method => [
      ⟨"name", .text, none, (·.name)⟩,
      ⟨"kind", .methodKind, some .ordinary, (·.kind)⟩,
      ⟨"parameters", .listOf .parameter, some [], (·.parameters)⟩,
      ⟨"returns", .reference, none, (·.returns)⟩]
  | .type => [
      ⟨"name", .text, none, (·.name)⟩,
      ⟨"namespace", .text, some "", (·.nameSpace)⟩,
      ⟨"kind", .typeKind, none, (·.kind)⟩,
      ⟨"origin", .origin, some .source, (·.origin)⟩,
      ⟨"type_parameters", .count, some 0, (·.typeParameters)⟩,
      ⟨"attributes", .listOf .text, some [], (·.attributes)⟩,
      ⟨"bases", .listOf .reference, some [], (·.bases)⟩,
      ⟨"methods", .listOf .method, some [], (·.methods)⟩]
  | .manifest => [
      ⟨"core_library", .flag, some true, (·.coreLibrary)⟩,
      ⟨"types", .listOf .type, some [], (·.types)⟩]
  | _ => []

/-! ## Reading records -/

section Fields

variable {α : Type}

/-- What the members say about the field: a value alone under its name, or nothing. -/
def Field.FoundIn (f : Field α) (ms : List (String × Json)) (x : f.place.Value) : Prop :=
  ∃ o : Option Json, valuesUnder f.name ms = o.toList ∧ f.decode o = some x

theorem Field.foundIn_of_alone {f : Field α} {ms : List (String × Json)} {v : Json}
    (h : valuesUnder f.name ms = [v]) {x : f.place.Value} :
    f.FoundIn ms x ↔ f.place.decode? v = some x := by
  constructor
  · rintro ⟨o, ho, hx⟩
    rw [h] at ho
    cases o with
    | none => cases ho
    | some w =>
      cases ho
      exact hx
  · exact fun hx => ⟨some v, h, hx⟩

theorem Field.foundIn_of_missing {f : Field α} {ms : List (String × Json)}
    (h : valuesUnder f.name ms = []) {x : f.place.Value} :
    f.FoundIn ms x ↔ f.default = some x := by
  constructor
  · rintro ⟨o, ho, hx⟩
    rw [h] at ho
    cases o with
    | none => exact hx
    | some w => cases ho
  · exact fun hx => ⟨none, h, hx⟩

/-- What is given for the fields is what the record has there. -/
def Gives (fs : List (Field α)) (os : List (Option Json)) (a : α) : Prop :=
  List.Forall₂ (fun f o => f.decode o = some (f.get a)) fs os

end Fields

theorem ParameterEntry.ofJson?_eq_some {j : Json} {p : ParameterEntry} :
    ParameterEntry.ofJson? j = some p ↔
      ∃ os, fieldsOf (Place.parameter.fields.map (·.name)) j = some os ∧
        Gives Place.parameter.fields os p := by
  refine Option.bind_eq_some_iff.trans (exists_congr fun os => and_congr_right fun _ => ?_)
  simp only [Gives, Place.fields, List.forall₂_cons_left_iff, List.forall₂_nil_left_iff]
  constructor
  · intro h
    split at h
    · simp only [Option.bind_eq_bind, Option.bind_eq_some_iff, Option.pure_def,
        Option.some.injEq] at h
      obtain ⟨_, hname, _, htype, rfl⟩ := h
      exact ⟨_, _, hname, ⟨_, _, htype, rfl, rfl⟩, rfl⟩
    · cases h
  · rintro ⟨_, _, hname, ⟨_, _, htype, rfl, rfl⟩, rfl⟩
    simp only [Option.bind_eq_bind, Option.bind_eq_some_iff, Option.pure_def, Option.some.injEq]
    exact ⟨_, hname, _, htype, rfl⟩

theorem MethodEntry.ofJson?_eq_some {j : Json} {m : MethodEntry} :
    MethodEntry.ofJson? j = some m ↔
      ∃ os, fieldsOf (Place.method.fields.map (·.name)) j = some os ∧
        Gives Place.method.fields os m := by
  refine Option.bind_eq_some_iff.trans (exists_congr fun os => and_congr_right fun _ => ?_)
  simp only [Gives, Place.fields, List.forall₂_cons_left_iff, List.forall₂_nil_left_iff]
  constructor
  · intro h
    split at h
    · simp only [Option.bind_eq_bind, Option.bind_eq_some_iff, Option.pure_def,
        Option.some.injEq] at h
      obtain ⟨_, hname, _, hkind, _, hparameters, _, hreturns, rfl⟩ := h
      exact ⟨_, _, hname, ⟨_, _, hkind, ⟨_, _, hparameters, ⟨_, _, hreturns, rfl, rfl⟩, rfl⟩, rfl⟩,
        rfl⟩
    · cases h
  · rintro ⟨_, _, hname, ⟨_, _, hkind, ⟨_, _, hparameters, ⟨_, _, hreturns, rfl, rfl⟩, rfl⟩, rfl⟩,
      rfl⟩
    simp only [Option.bind_eq_bind, Option.bind_eq_some_iff, Option.pure_def, Option.some.injEq]
    exact ⟨_, hname, _, hkind, _, hparameters, _, hreturns, rfl⟩

theorem TypeEntry.ofJson?_eq_some {j : Json} {e : TypeEntry} :
    TypeEntry.ofJson? j = some e ↔
      ∃ os, fieldsOf (Place.type.fields.map (·.name)) j = some os ∧
        Gives Place.type.fields os e := by
  refine Option.bind_eq_some_iff.trans (exists_congr fun os => and_congr_right fun _ => ?_)
  simp only [Gives, Place.fields, List.forall₂_cons_left_iff, List.forall₂_nil_left_iff]
  constructor
  · intro h
    split at h
    · simp only [Option.bind_eq_bind, Option.bind_eq_some_iff, Option.pure_def,
        Option.some.injEq] at h
      obtain ⟨_, hname, _, hnameSpace, _, hkind, _, horigin, _, hcount, _, hattributes, _, hbases,
        _, hmethods, rfl⟩ := h
      exact ⟨_, _, hname, ⟨_, _, hnameSpace, ⟨_, _, hkind, ⟨_, _, horigin, ⟨_, _, hcount,
        ⟨_, _, hattributes, ⟨_, _, hbases, ⟨_, _, hmethods, rfl, rfl⟩, rfl⟩, rfl⟩, rfl⟩, rfl⟩,
        rfl⟩, rfl⟩, rfl⟩
    · cases h
  · rintro ⟨_, _, hname, ⟨_, _, hnameSpace, ⟨_, _, hkind, ⟨_, _, horigin, ⟨_, _, hcount,
      ⟨_, _, hattributes, ⟨_, _, hbases, ⟨_, _, hmethods, rfl, rfl⟩, rfl⟩, rfl⟩, rfl⟩, rfl⟩,
      rfl⟩, rfl⟩, rfl⟩
    simp only [Option.bind_eq_bind, Option.bind_eq_some_iff, Option.pure_def, Option.some.injEq]
    exact ⟨_, hname, _, hnameSpace, _, hkind, _, horigin, _, hcount, _, hattributes, _, hbases,
      _, hmethods, rfl⟩

private theorem ofJson?_eq_some {j : Json} {m : Manifest} :
    ofJson? j = some m ↔
      ∃ os, fieldsOf (Place.manifest.fields.map (·.name)) j = some os ∧
        Gives Place.manifest.fields os m := by
  refine Option.bind_eq_some_iff.trans (exists_congr fun os => and_congr_right fun _ => ?_)
  simp only [Gives, Place.fields, List.forall₂_cons_left_iff, List.forall₂_nil_left_iff]
  constructor
  · intro h
    split at h
    · simp only [Option.bind_eq_bind, Option.bind_eq_some_iff, Option.pure_def,
        Option.some.injEq] at h
      obtain ⟨_, hcore, _, htypes, rfl⟩ := h
      exact ⟨_, _, hcore, ⟨_, _, htypes, rfl, rfl⟩, rfl⟩
    · cases h
  · rintro ⟨_, _, hcore, ⟨_, _, htypes, rfl, rfl⟩, rfl⟩
    simp only [Option.bind_eq_bind, Option.bind_eq_some_iff, Option.pure_def, Option.some.injEq]
    exact ⟨_, hcore, _, htypes, rfl⟩

private theorem fieldsOf_object {names : List String} {ms : List (String × Json)}
    {os : List (Option Json)} :
    fieldsOf names (.object ms) = some os ↔
      List.Forall₂ (fun name o => valuesUnder name ms = o.toList) names os := by
  rw [fieldsOf, mapM_eq_some_iff]
  constructor
  · refine fun h => h.imp fun name o hlone => ?_
    split at hlone <;> cases hlone <;> assumption
  · refine fun h => h.imp fun name o hlone => ?_
    rw [hlone]
    cases o <;> rfl

private theorem fieldsOf_array {names : List String} {items : List Json} {os : List (Option Json)} :
    fieldsOf names (.array items) = some os ↔
      items.length ≤ names.length ∧ os = (List.range names.length).map fun i => items[i]? := by
  have hrange : (List.range names.length).map (fun i => items[i]?) =
      names.zipIdx.map fun x => items[x.2]? := by
    rw [List.range_eq_range', ← List.zipIdx_map_snd 0 names, List.map_map]
    rfl
  rw [fieldsOf, hrange]
  split
  · simp [*, eq_comm]
  · simp [*]

namespace Place

variable {p : Place} {j : Json} {a : p.Value}

theorem decode?_eq_some (hp : p.fields ≠ []) :
    p.decode? j = some a ↔
      ∃ os, fieldsOf (p.fields.map (·.name)) j = some os ∧ Gives p.fields os a := by
  cases p with
  | parameter => exact ParameterEntry.ofJson?_eq_some
  | method => exact MethodEntry.ofJson?_eq_some
  | type => exact TypeEntry.ofJson?_eq_some
  | manifest => exact Manifest.ofJson?_eq_some
  | _ => exact absurd rfl hp

/-- A record written as an object: under the name of each field stands at most one value. -/
theorem decode?_object (hp : p.fields ≠ []) {ms : List (String × Json)} :
    p.decode? (.object ms) = some a ↔
      ∀ f ∈ p.fields, f.FoundIn ms (f.get a) := by
  unfold Field.FoundIn
  rw [decode?_eq_some hp, ← exists_forall₂_iff]
  simp only [fieldsOf_object, List.forall₂_map_left_iff, Gives]

/-- A record written as an array: the values stand for the first fields. -/
theorem decode?_array (hp : p.fields ≠ []) {items : List Json} :
    p.decode? (.array items) = some a ↔
      items.length ≤ p.fields.length ∧
        ∀ (i : Nat) (f : Field p.Value), p.fields[i]? = some f →
          f.decode items[i]? = some (f.get a) := by
  rw [decode?_eq_some hp]
  simp only [fieldsOf_array, List.length_map, Gives, and_assoc, exists_and_left, exists_eq_left]
  refine and_congr_right fun _ => ?_
  exact forall₂_range_iff

private theorem names_nodup (p : Place) : (p.fields.map (·.name)).Nodup := by
  cases p with
  | listOf p => exact List.nodup_nil
  | _ => decide

/-- A field is known by its name. -/
theorem eq_of_name_eq {f f' : Field p.Value} (hf : f ∈ p.fields) (hf' : f' ∈ p.fields)
    (h : f.name = f'.name) : f = f' :=
  List.inj_on_of_nodup_map p.names_nodup hf hf' h

/-! ## Round trip -/

/-- What is written for the value is read back as the value. -/
def RoundTrips (p : Place) (a : p.Value) : Prop := p.decode? (p.encode a) = some a

private theorem encode_record (hp : p.fields ≠ []) (a : p.Value) :
    p.encode a = .object (p.fields.map fun f => (f.name, f.place.encode (f.get a))) := by
  cases p with
  | type =>
    simp only [encode, TypeEntry.toJson, fields, List.map_cons, List.map_nil,
      TypeRef.toJsonList_eq_map]
  | parameter | method | manifest => rfl
  | _ => exact absurd rfl hp

private theorem valuesUnder_written {α : Type} {fs : List (Field α)}
    (hnodup : (fs.map (·.name)).Nodup)
    (w : Field α → Json) {f : Field α} (hf : f ∈ fs) :
    valuesUnder f.name (fs.map fun f => (f.name, w f)) = [w f] := by
  induction fs with
  | nil => cases hf
  | cons first fs ih =>
    rw [List.map_cons, List.nodup_cons] at hnodup
    rw [List.map_cons]
    rcases List.mem_cons.mp hf with rfl | hf
    · rw [Json.valuesUnder_cons_self, Json.valuesUnder_eq_nil]
      intro m hm
      obtain ⟨f', hf', rfl⟩ := List.mem_map.mp hm
      exact fun h => hnodup.1 (List.mem_map.mpr ⟨f', hf', h⟩)
    · have hne : first.name ≠ f.name := fun h => hnodup.1 (List.mem_map.mpr ⟨f, hf, h.symm⟩)
      rw [Json.valuesUnder_cons_of_ne hne, ih hnodup.2 hf]

/-- A record is read back if its fields are. -/
theorem roundTrips_record (hp : p.fields ≠ []) :
    p.RoundTrips a ↔ ∀ f ∈ p.fields, f.place.RoundTrips (f.get a) := by
  rw [RoundTrips, encode_record hp, decode?_object hp]
  refine forall₂_congr fun f hf => ?_
  rw [Field.foundIn_of_alone (valuesUnder_written p.names_nodup _ hf)]
  rfl

@[simp] theorem roundTrips_listOf {as : List p.Value} :
    (listOf p).RoundTrips as ↔ ∀ a ∈ as, p.RoundTrips a := by
  change (as.map p.encode).mapM p.decode? = some as ↔ _
  rw [mapM_eq_some_iff, List.forall₂_map_left_iff, List.forall₂_same]
  rfl

@[simp] theorem roundTrips_text (s : String) : text.RoundTrips s := rfl

@[simp] theorem roundTrips_flag (b : Bool) : flag.RoundTrips b := rfl

@[simp] theorem roundTrips_count {n : Nat} : count.RoundTrips n ↔ n < Text.wordLimit := by
  change (if n < Text.wordLimit then some n else none) = some n ↔ _
  simp

@[simp] theorem roundTrips_typeKind (k : TypeKind) : typeKind.RoundTrips k := k.ofName?_name

@[simp] theorem roundTrips_origin (o : Origin) : origin.RoundTrips o := o.ofName?_name

@[simp] theorem roundTrips_methodKind (k : MethodKind) : methodKind.RoundTrips k := k.ofName?_name

@[simp] theorem roundTrips_reference (r : TypeRef) : reference.RoundTrips r := r.decode?_toJson

@[simp] theorem roundTrips_parameter (p : ParameterEntry) : parameter.RoundTrips p := by
  rw [roundTrips_record (by simp [fields])]
  simp [fields]

@[simp] theorem roundTrips_method (m : MethodEntry) : method.RoundTrips m := by
  rw [roundTrips_record (by simp [fields])]
  simp [fields]

@[simp] theorem roundTrips_type {e : TypeEntry} :
    type.RoundTrips e ↔ e.typeParameters < Text.wordLimit := by
  rw [roundTrips_record (by simp [fields])]
  simp [fields]

end Place

/-- A manifest is read back if its counts fit. -/
theorem ofJson?_toJson (m : Manifest) :
    ofJson? m.toJson = some m ↔ ∀ e ∈ m.types, e.typeParameters < Text.wordLimit := by
  change Place.manifest.RoundTrips m ↔ _
  rw [Place.roundTrips_record (by simp [Place.fields])]
  simp [Place.fields]

end HubBindings.Manifest
