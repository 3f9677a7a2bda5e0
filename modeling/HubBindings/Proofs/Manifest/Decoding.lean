import HubBindings.Proofs.Manifest.Records
import Mathlib.Logic.Relation

/-!
What the decoding of manifests depends on.

* `Edit` is a change of a value that its place takes no notice of, at any depth;
* `Inside` finds the place of a value inside another, and `Inside.decode?_eq_none` says that what is
  rejected there is rejected as a whole;
* `Edit.decode?_eq`: a value is read after an edit as before it;
* `decoding_faithful` adds the round trip and the forms of references.
-/

namespace HubBindings.Manifest

open Sequencing
open Json (valuesUnder)

/-! ## Edits -/

/-- No field of the place has the name. -/
def Place.Unknown (p : Place) (key : String) : Prop := ∀ f ∈ p.fields, f.name ≠ key

/-- A change of a value that its place takes no notice of: the order of members, members under
unknown names, and members that say what holds without them. A record that is an array can only end
earlier. If `alone` is set, a member is left out only if no other one has its name. -/
inductive Edit (alone : Bool) : Place → Json → Json → Prop
  | reorder {p : Place} {ms ms' : List (String × Json)} :
      p.fields ≠ [] → ms.Perm ms' → Edit alone p (.object ms) (.object ms')
  | insert {p : Place} {key : String} {v : Json} {ms : List (String × Json)} :
      p.fields ≠ [] → p.Unknown key → Edit alone p (.object ms) (.object ((key, v) :: ms))
  | skipped {p : Place} {key : String} {v v' : Json} {ms : List (String × Json)} :
      p.fields ≠ [] → p.Unknown key →
        Edit alone p (.object ((key, v) :: ms)) (.object ((key, v') :: ms))
  | omitted {p : Place} {f : Field p.Value} {d : f.place.Value} {v : Json}
      {ms : List (String × Json)} :
      f ∈ p.fields → f.default = some d → f.place.decode? v = some d →
        (alone = true → valuesUnder f.name ms = []) →
          Edit alone p (.object ((f.name, v) :: ms)) (.object ms)
  | omittedLast {p : Place} {f : Field p.Value} {d : f.place.Value} {v : Json}
      {items : List Json} :
      p.fields[items.length]? = some f → f.default = some d → f.place.decode? v = some d →
        Edit alone p (.array (items ++ [v])) (.array items)
  | member {p : Place} {f : Field p.Value} {v v' : Json} {ms : List (String × Json)} :
      f ∈ p.fields → Edit alone f.place v v' →
        Edit alone p (.object ((f.name, v) :: ms)) (.object ((f.name, v') :: ms))
  | position {p : Place} {f : Field p.Value} {v v' : Json} {before after : List Json} :
      p.fields[before.length]? = some f → Edit alone f.place v v' →
        Edit alone p (.array (before ++ v :: after)) (.array (before ++ v' :: after))
  | item {p : Place} {v v' : Json} {before after : List Json} :
      Edit alone p v v' →
        Edit alone (.listOf p) (.array (before ++ v :: after)) (.array (before ++ v' :: after))
  | reference {v v' : Json} : TypeRef.Alteration v v' → Edit alone .reference v v'

section Records

variable {p : Place} {ms ms' : List (String × Json)}

private theorem decode?_object_congr (hp : p.fields ≠ [])
    (h : ∀ f ∈ p.fields, ∀ x, f.FoundIn ms' x ↔ f.FoundIn ms x) :
    p.decode? (.object ms') = p.decode? (.object ms) := by
  ext a
  rw [Place.decode?_object hp, Place.decode?_object hp]
  exact forall₂_congr fun f hf => h f hf (f.get a)

private theorem decode?_array_congr (hp : p.fields ≠ []) {items items' : List Json}
    (hlength : items'.length ≤ p.fields.length ↔ items.length ≤ p.fields.length)
    (h : ∀ (i : Nat) (f : Field p.Value), p.fields[i]? = some f →
      f.decode items'[i]? = f.decode items[i]?) :
    p.decode? (.array items') = p.decode? (.array items) := by
  ext a
  rw [Place.decode?_array hp, Place.decode?_array hp, hlength]
  refine and_congr_right fun _ => forall₃_congr fun i f hf => ?_
  rw [h i f hf]

private theorem decode?_reorder (hp : p.fields ≠ []) (h : ms.Perm ms') :
    p.decode? (.object ms') = p.decode? (.object ms) :=
  decode?_object_congr hp fun _ _ _ => exists_congr fun _ =>
    and_congr_left fun _ => Json.valuesUnder_eq_toList_of_perm h

private theorem decode?_insert (hp : p.fields ≠ []) {key : String} (h : p.Unknown key) (v : Json) :
    p.decode? (.object ((key, v) :: ms)) = p.decode? (.object ms) := by
  refine decode?_object_congr hp fun f hf x => ?_
  rw [Field.FoundIn, Field.FoundIn, Json.valuesUnder_cons_of_ne (h f hf).symm]

/-- If only what stands under the name of one field changes, only this field can. -/
theorem decode?_field_congr {f : Field p.Value} (hf : f ∈ p.fields)
    (hother : ∀ key, key ≠ f.name → valuesUnder key ms' = valuesUnder key ms)
    (h : ∀ x, f.FoundIn ms' x ↔ f.FoundIn ms x) :
    p.decode? (.object ms') = p.decode? (.object ms) := by
  refine decode?_object_congr (List.ne_nil_of_mem hf) fun f' hf' x => ?_
  by_cases hname : f'.name = f.name
  · cases Place.eq_of_name_eq hf' hf hname
    exact h x
  · rw [Field.FoundIn, Field.FoundIn, hother f'.name hname]

private theorem decode?_omitted {f : Field p.Value} (hf : f ∈ p.fields) {d : f.place.Value}
    (hd : f.default = some d) {v : Json} (hv : f.place.decode? v = some d)
    (hms : valuesUnder f.name ms = []) :
    p.decode? (.object ms) = p.decode? (.object ((f.name, v) :: ms)) := by
  refine decode?_field_congr hf (fun key hkey => ?_) fun x => ?_
  · rw [Json.valuesUnder_cons_of_ne hkey.symm]
  · have halone : valuesUnder f.name ((f.name, v) :: ms) = [v] := by
      rw [Json.valuesUnder_cons_self, hms]
    rw [Field.foundIn_of_missing hms, Field.foundIn_of_alone halone, hd, hv]

private theorem decode?_member {f : Field p.Value} (hf : f ∈ p.fields) {v v' : Json}
    (h : f.place.decode? v' = f.place.decode? v) :
    p.decode? (.object ((f.name, v') :: ms)) = p.decode? (.object ((f.name, v) :: ms)) := by
  refine decode?_field_congr hf (fun key hkey => ?_) fun x => ?_
  · rw [Json.valuesUnder_cons_of_ne hkey.symm, Json.valuesUnder_cons_of_ne hkey.symm]
  · cases hms : valuesUnder f.name ms with
    | nil =>
      have halone : ∀ w, valuesUnder f.name ((f.name, w) :: ms) = [w] := fun w => by
        rw [Json.valuesUnder_cons_self, hms]
      rw [Field.foundIn_of_alone (halone v'), Field.foundIn_of_alone (halone v), h]
    | cons first rest =>
      -- A second value under the name is never read.
      have hnot : ∀ w, ¬ f.FoundIn ((f.name, w) :: ms) x := by
        rintro w ⟨o, ho, -⟩
        rw [Json.valuesUnder_cons_self, hms] at ho
        cases o <;> cases ho
      exact iff_of_false (hnot v') (hnot v)

private theorem decode?_omittedLast {f : Field p.Value} {d : f.place.Value} {v : Json}
    {items : List Json} (hf : p.fields[items.length]? = some f) (hd : f.default = some d)
    (hv : f.place.decode? v = some d) :
    p.decode? (.array items) = p.decode? (.array (items ++ [v])) := by
  have hlt := (List.getElem?_eq_some_iff.mp hf).1
  refine decode?_array_congr (List.ne_nil_of_length_pos (by omega)) ?_ fun i f' hf' => ?_
  · rw [List.length_append, List.length_singleton]
    omega
  · rcases Nat.lt_trichotomy i items.length with hi | rfl | hi
    · rw [List.getElem?_append_left hi]
    · cases hf.symm.trans hf'
      simp [Field.decode, hd, hv]
    · rw [List.getElem?_eq_none (by omega), List.getElem?_eq_none (by simp; omega)]

private theorem decode?_position {f : Field p.Value} {v v' : Json} {before after : List Json}
    (hf : p.fields[before.length]? = some f) (h : f.place.decode? v' = f.place.decode? v) :
    p.decode? (.array (before ++ v' :: after)) = p.decode? (.array (before ++ v :: after)) := by
  have hlt := (List.getElem?_eq_some_iff.mp hf).1
  refine decode?_array_congr (List.ne_nil_of_length_pos (by omega)) (by simp) fun i f' hf' => ?_
  by_cases hi : i = before.length
  · subst hi
    cases hf.symm.trans hf'
    simp [Field.decode, h]
  · congr 1
    grind

private theorem decode?_item {v v' : Json} (h : p.decode? v' = p.decode? v)
    (before after : List Json) :
    (Place.listOf p).decode? (.array (before ++ v' :: after)) =
      (Place.listOf p).decode? (.array (before ++ v :: after)) := by
  change (before ++ v' :: after).mapM p.decode? = (before ++ v :: after).mapM p.decode?
  rw [List.mapM_append, List.mapM_append, List.mapM_cons, List.mapM_cons, h]

end Records

/-! ## Values inside -/

/-- The value `u` stands at a place `q` inside the value `j` at the place `p`. Inside a reference
only that counts on which it depends: the arguments unless it has an array that fits, and the array
unless it has a definition and arguments that fit. -/
inductive Inside : Place → Json → Place → Json → Prop
  | here {p : Place} {j : Json} : Inside p j p j
  | member {p q : Place} {f : Field p.Value} {v u : Json} {ms : List (String × Json)} :
      f ∈ p.fields → (f.name, v) ∈ ms → Inside f.place v q u → Inside p (.object ms) q u
  | position {p q : Place} {f : Field p.Value} {v u : Json} {items : List Json} {i : Nat} :
      p.fields[i]? = some f → items[i]? = some v → Inside f.place v q u →
        Inside p (.array items) q u
  | item {p q : Place} {v u : Json} {items : List Json} :
      v ∈ items → Inside p v q u → Inside (.listOf p) (.array items) q u
  | argument {q : Place} {v u : Json} {ms : List (String × Json)} {items : List Json} :
      valuesUnder "arguments" ms = [.array items] → v ∈ items →
        (∀ w e, valuesUnder "array" ms = [w] → ¬ TypeRef.Reads w e) →
        Inside .reference v q u → Inside .reference (.object ms) q u
  | element {q : Place} {v u : Json} {ms : List (String × Json)} :
      valuesUnder "array" ms = [v] → (∀ d as, ¬ TypeRef.GenericIn TypeRef.Reads ms d as) →
        Inside .reference v q u → Inside .reference (.object ms) q u

private theorem decode?_eq_none_of_argument {v : Json} {ms : List (String × Json)}
    {items : List Json}
    (hitems : valuesUnder "arguments" ms = [.array items]) (hv : v ∈ items)
    (hnot : ∀ w e, valuesUnder "array" ms = [w] → ¬ TypeRef.Reads w e)
    (h : TypeRef.decode? v = none) : TypeRef.decode? (.object ms) = none := by
  refine Option.eq_none_iff_forall_ne_some.mpr fun r hr => ?_
  obtain ⟨hreadable, hreads⟩ := TypeRef.decode?_eq_some.mp hr
  have hin : Json.array items ∈ valuesUnder "arguments" ms := by simp [hitems]
  have hv' := Json.isReadable_array_iff.mp (Json.isReadable_of_mem_valuesUnder hreadable hin) v hv
  cases (TypeRef.byForms_reads _ r).mp hreads with
  | generic hgeneric =>
    obtain ⟨-, items', hitems', hall⟩ := hgeneric
    cases hitems.symm.trans hitems'
    obtain ⟨r', -, hr'⟩ := exists_of_mem_left hall hv
    cases h.symm.trans (TypeRef.decode?_eq_some.mpr ⟨hv', hr'⟩)
  | array _ hw he => exact hnot _ _ hw he

private theorem decode?_eq_none_of_element {v : Json} {ms : List (String × Json)}
    (hv : valuesUnder "array" ms = [v])
    (hnot : ∀ d as, ¬ TypeRef.GenericIn TypeRef.Reads ms d as)
    (h : TypeRef.decode? v = none) : TypeRef.decode? (.object ms) = none := by
  refine Option.eq_none_iff_forall_ne_some.mpr fun r hr => ?_
  obtain ⟨hreadable, hreads⟩ := TypeRef.decode?_eq_some.mp hr
  have hin : v ∈ valuesUnder "array" ms := by simp [hv]
  have hv' := Json.isReadable_of_mem_valuesUnder hreadable hin
  cases (TypeRef.byForms_reads _ r).mp hreads with
  | generic hgeneric => exact hnot _ _ hgeneric
  | array _ hw he =>
    cases hv.symm.trans hw
    cases h.symm.trans (TypeRef.decode?_eq_some.mpr ⟨hv', he⟩)

/-- What is rejected inside is rejected as a whole. -/
theorem Inside.decode?_eq_none {p q : Place} {j u : Json} (h : Inside p j q u)
    (hu : q.decode? u = none) : p.decode? j = none := by
  induction h with
  | here => exact hu
  | @member p _ f v _ ms hf hv _ ih =>
    refine Option.eq_none_iff_forall_ne_some.mpr fun a ha => ?_
    obtain ⟨o, ho, hx⟩ := (Place.decode?_object (List.ne_nil_of_mem hf)).mp ha f hf
    have hin : v ∈ o.toList := ho ▸ Json.mem_valuesUnder.mpr hv
    cases Option.mem_toList.mp hin
    cases hx.symm.trans (ih hu)
  | @position p _ f v _ items i hf hv _ ih =>
    refine Option.eq_none_iff_forall_ne_some.mpr fun a ha => ?_
    have hx := ((Place.decode?_array (List.ne_nil_of_mem (List.mem_of_getElem? hf))).mp ha).2 i f hf
    rw [hv] at hx
    cases hx.symm.trans (ih hu)
  | item hv _ ih =>
    refine Option.eq_none_iff_forall_ne_some.mpr fun as has => ?_
    obtain ⟨a, -, ha⟩ := exists_of_mem_left (mapM_eq_some_iff.mp has) hv
    cases ha.symm.trans (ih hu)
  | argument hitems hv hnot _ ih => exact decode?_eq_none_of_argument hitems hv hnot (ih hu)
  | element hv hnot _ ih => exact decode?_eq_none_of_element hv hnot (ih hu)

/-! ## Edited values -/

/-- In a record that can be read no two members have the name of a field. -/
theorem valuesUnder_of_decoded {p : Place} {f : Field p.Value} (hf : f ∈ p.fields) {v : Json}
    {ms : List (String × Json)} (h : p.decode? (.object ((f.name, v) :: ms)) ≠ none) :
    valuesUnder f.name ms = [] := by
  obtain ⟨a, ha⟩ := Option.ne_none_iff_exists'.mp h
  obtain ⟨o, ho, -⟩ := (Place.decode?_object (List.ne_nil_of_mem hf)).mp ha f hf
  rw [Json.valuesUnder_cons_self] at ho
  cases o with
  | none => cases ho
  | some w => exact (List.cons.inj ho).2

/-- An edited value is read as before, if it was read at all or if no member that was left out had
another one beside it. -/
theorem Edit.decode?_eq {alone : Bool} {p : Place} {j j' : Json} (h : Edit alone p j j')
    (hj : alone = true ∨ p.decode? j ≠ none) : p.decode? j' = p.decode? j := by
  -- what is read as a whole is read inside
  have hinside : ∀ {p q : Place} {j u : Json}, Inside p j q u →
      alone = true ∨ p.decode? j ≠ none → alone = true ∨ q.decode? u ≠ none :=
    fun hin => Or.imp_right fun hne hnone => hne (hin.decode?_eq_none hnone)
  induction h with
  | reorder hp hperm => exact decode?_reorder hp hperm
  | insert hp hkey => exact decode?_insert hp hkey _
  | skipped hp hkey => rw [decode?_insert hp hkey, decode?_insert hp hkey]
  | omitted hf hd hv hms =>
    exact decode?_omitted hf hd hv (hj.elim hms (valuesUnder_of_decoded hf))
  | omittedLast hf hd hv => exact decode?_omittedLast hf hd hv
  | member hf _ ih => exact decode?_member hf (ih (hinside (.member hf (.head _) .here) hj))
  | position hf _ ih =>
    exact decode?_position hf (ih (hinside (.position hf (by simp) .here) hj))
  | item _ ih => exact decode?_item (ih (hinside (.item (by simp) .here) hj)) _ _
  | reference halter => exact halter.decode?_eq

private theorem decode?_of_edits {alone : Bool} {p : Place} {j j' : Json}
    (h : Relation.ReflTransGen (Edit alone p) j j') (hj : alone = true ∨ p.decode? j ≠ none) :
    p.decode? j' = p.decode? j := by
  induction h with
  | refl => rfl
  | tail _ hedit ih => exact (hedit.decode?_eq (ih ▸ hj)).trans ih

/-! ## The decoder -/

/-- What is written for a manifest is read back if its counts fit. Edits, at any depth and in any
number, do not change what is read, and if they leave out no member beside one of the same name they
do not change that nothing is read. A reference is read by its forms, at every depth, and a value
that is no reference where one has to stand is rejected with the whole manifest. -/
theorem decoding_faithful :
    (∀ m : Manifest, ofJson? m.toJson = some m ↔
      ∀ e ∈ m.types, e.typeParameters < Text.wordLimit) ∧
    (∀ j j' m, ofJson? j = some m → Relation.ReflTransGen (Edit false .manifest) j j' →
      ofJson? j' = some m) ∧
    (∀ j j', Relation.ReflTransGen (Edit true .manifest) j j' → ofJson? j' = ofJson? j) ∧
    (∀ reads, TypeRef.ByForms reads ↔ reads = TypeRef.Reads) ∧
    (∀ j r, TypeRef.decode? j = some r ↔ j.isReadable = true ∧ TypeRef.Reads j r) ∧
    ∀ j u, Inside .manifest j .reference u →
      (u.isReadable = true → ∀ r, ¬ TypeRef.Form TypeRef.Reads u r) → ofJson? j = none := by
  refine ⟨ofJson?_toJson, fun j j' m hm h => ?_, fun j j' h => decode?_of_edits h (.inl rfl),
    fun reads => TypeRef.byForms_iff, fun j r => TypeRef.decode?_eq_some,
    fun j u hinside hnot => ?_⟩
  · have hj : Place.manifest.decode? j ≠ none := Option.ne_none_iff_exists'.mpr ⟨m, hm⟩
    exact (decode?_of_edits h (.inr hj)).trans hm
  · refine hinside.decode?_eq_none (Option.eq_none_iff_forall_ne_some.mpr fun r hr => ?_)
    obtain ⟨hreadable, hreads⟩ := TypeRef.decode?_eq_some.mp hr
    exact hnot hreadable r ((TypeRef.byForms_reads u r).mp hreads)

/-! ### Manifests with one class -/

/-- A manifest with one class, of which some members are given. -/
def classWith (members : List (String × Json)) : Json :=
  .object [("types", .array [.object (("name", .string "T") :: members)])]

/-- A reference that names a definition, but with an argument that is no reference. -/
def brokenList (members : List (String × Json)) : Json :=
  .object (("definition", .string "L") :: ("arguments", .array [.null]) :: members)

/-- A manifest with a nested reference. -/
def nested : Manifest :=
  { types := [{ name := "T", kind := .classType, bases := [.array (.generic "L" [.named "U"])] }] }

theorem classWith_decoded :
    ofJson? nested.toJson = some nested ∧
    ofJson? (.object [("note", .null), ("types", .array [.object [("kind", .string "class"),
        ("name", .string "T")]])]) = some { types := [{ name := "T", kind := .classType }] } ∧
    ofJson? (.object [("core_library", .bool true)]) =
      ofJson? (.object [("note", .null), ("core_library", .bool true)]) ∧
    TypeRef.decode? (brokenList [("array", .string "U")]) = some (.array (.named "U")) ∧
    ofJson? (classWith [("kind", .string "class"),
      ("bases", .array [.object [("array", brokenList [])]])]) = none := by
  let core : Field Manifest := ⟨"core_library", .flag, some true, (·.coreLibrary)⟩
  let types : Field Manifest := ⟨"types", .listOf .type, some [], (·.types)⟩
  let bases : Field TypeEntry := ⟨"bases", .listOf .reference, some [], (·.bases)⟩
  have hcore : core ∈ Place.manifest.fields := .head _
  have htypes : types ∈ Place.manifest.fields := .tail _ (.head _)
  have hbases : bases ∈ Place.type.fields := List.mem_of_getElem? (i := 6) rfl
  have hrecord : Place.manifest.fields ≠ [] := List.ne_nil_of_mem hcore
  have hnote : Place.manifest.Unknown "note" := by simp [Place.Unknown, Place.fields]
  obtain ⟨hround, hedit, hsame, -, hforms, hinside⟩ := decoding_faithful
  refine ⟨(hround nested).mpr (by decide),
    hedit (.object [("core_library", .bool true), ("types", .array [.object [
      ("name", .string "T"), ("kind", .string "class")]])]) _ _ rfl ?_,
    (hsame _ _ (.single (.insert hrecord hnote))).symm, (hforms _ _).mpr ⟨rfl, rfl⟩,
    hinside _ .null ?_ fun _ r hform => by cases hform⟩
  · -- The default goes, the members of the class change places, and a note is added.
    refine .head (.omitted (p := .manifest) (f := core) hcore rfl rfl fun h => by cases h)
      (.head ?_ (.single (.insert hrecord hnote)))
    refine .member (p := .manifest) (f := types) htypes (@Edit.item false .type _ _ [] [] ?_)
    exact .reorder (by simp [Place.fields]) (.swap _ _ _)
  · refine .member (p := .manifest) (f := types) htypes (.head _) (.item (.head _) ?_)
    refine .member (p := .type) (f := bases) hbases (.tail _ (.tail _ (.head _))) ?_
    refine .item (.head _) ?_
    refine .element rfl ?_ (.argument rfl (.head _) ?_ .here)
    · rintro d as ⟨hd, -⟩
      cases hd
    · rintro w e hw
      cases hw

theorem annotatedKind_rejected :
    ofJson? (classWith [("kind", .object [("class", .null)])]) =
        some { types := [{ name := "T", kind := .classType }] } ∧
      ofJson? (classWith [("kind", .object [("class", .null), ("note", .natural 1)])]) = none ∧
      ofJson? (.object [("types", .array [.array [.string "T", .string "", .string "class"]])]) =
        some { types := [{ name := "T", kind := .classType }] } ∧
      ofJson? (.object [("types", .array [.array [.string "T", .string "class"]])]) = none :=
  ⟨rfl, rfl, rfl, rfl⟩

end HubBindings.Manifest
