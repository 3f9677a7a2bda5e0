import HubBindings.Manifest.Codec
import HubBindings.Proofs.Sequencing

/-!
Type references as JSON.

* `Form` lists the three forms of a reference in the order in which they are tried, for any way to
  read the references inside. The decoder reads references by these forms, and no other reading
  does (`byForms_iff`);
* `decode?_toJson` is the round trip;
* `Alteration` is a change of a value that no form takes notice of.
-/

namespace HubBindings

open Sequencing

/-! ## Members of objects -/

namespace Json

theorem valuesUnder_cons_self (key : String) (v : Json) (ms : List (String × Json)) :
    valuesUnder key ((key, v) :: ms) = v :: valuesUnder key ms := by
  simp [valuesUnder]

theorem valuesUnder_cons_of_ne {key key' : String} (h : key' ≠ key) (v : Json)
    (ms : List (String × Json)) : valuesUnder key ((key', v) :: ms) = valuesUnder key ms := by
  simp [valuesUnder, h]

theorem mem_valuesUnder {key : String} {v : Json} {ms : List (String × Json)} :
    v ∈ valuesUnder key ms ↔ (key, v) ∈ ms := by
  simp [valuesUnder]

theorem valuesUnder_eq_nil {key : String} {ms : List (String × Json)}
    (h : ∀ m ∈ ms, m.1 ≠ key) : valuesUnder key ms = [] := by
  simpa [valuesUnder, List.filter_eq_nil_iff] using h

private theorem valuesUnder_perm {ms ms' : List (String × Json)} (h : ms.Perm ms') (key : String) :
    (valuesUnder key ms).Perm (valuesUnder key ms') :=
  (h.filter _).map _

/-- Where at most one value stands under a key, it does so in another order. -/
theorem valuesUnder_eq_toList_of_perm {ms ms' : List (String × Json)} (h : ms.Perm ms')
    {key : String} {o : Option Json} :
    valuesUnder key ms' = o.toList ↔ valuesUnder key ms = o.toList := by
  have hperm := valuesUnder_perm h key
  cases o with
  | none =>
    rw [Option.toList_none]
    constructor
    · intro e; rw [e] at hperm; exact hperm.eq_nil
    · intro e; rw [e] at hperm; exact hperm.symm.eq_nil
  | some v =>
    rw [Option.toList_some]
    constructor
    · intro e; rw [e] at hperm; exact List.perm_singleton.mp hperm
    · intro e; rw [e] at hperm; exact List.perm_singleton.mp hperm.symm

theorem isReadable_array_iff {items : List Json} :
    (Json.array items).isReadable = true ↔ ∀ v ∈ items, v.isReadable = true := by
  rw [isReadable]
  induction items with
  | nil => simp [allReadable]
  | cons v items ih => simp [allReadable, ih]

private theorem isReadable_object_iff {ms : List (String × Json)} :
    (Json.object ms).isReadable = true ↔ ∀ m ∈ ms, m.2.isReadable = true := by
  rw [isReadable]
  induction ms with
  | nil => simp [allReadableMembers]
  | cons m ms ih =>
    obtain ⟨key, v⟩ := m
    simp [allReadableMembers, ih]

theorem isReadable_of_mem_valuesUnder {ms : List (String × Json)} {key : String} {v : Json}
    (h : (Json.object ms).isReadable = true) (hv : v ∈ valuesUnder key ms) :
    v.isReadable = true :=
  isReadable_object_iff.mp h (key, v) (mem_valuesUnder.mp hv)

end Json

namespace TypeRef

open Json (valuesUnder valuesUnder_cons_self valuesUnder_cons_of_ne)

/-! ## Forms -/

/-- The value is read as the reference. -/
def Reads (j : Json) (r : TypeRef) : Prop := ofJson? j = some r

private theorem ofJsonList?_eq_some {items : List Json} {rs : List TypeRef} :
    ofJsonList? items = some rs ↔ List.Forall₂ Reads items rs := by
  induction items generalizing rs with
  | nil =>
    rw [ofJsonList?]
    constructor
    · intro h; cases h; exact .nil
    · intro h; cases h; rfl
  | cons j items ih =>
    rw [ofJsonList?]
    constructor
    · intro h
      cases hj : ofJson? j with
      | none => simp [hj] at h
      | some r =>
        cases hrest : ofJsonList? items with
        | none => simp [hj, hrest] at h
        | some rest =>
          simp only [hj, hrest, Option.some.injEq] at h
          cases h
          exact .cons hj (ih.mp hrest)
    · intro h
      cases h with
      | cons hj hrest =>
        rw [Reads] at hj
        simp [hj, ih.mpr hrest]

private theorem definitionOf_eq_some {ms : List (String × Json)} {d : String} :
    definitionOf ms = some d ↔ valuesUnder "definition" ms = [.string d] := by
  unfold definitionOf
  constructor
  · intro h
    split at h
    · rename_i s hs
      cases h
      exact hs
    · cases h
  · intro h
    rw [h]

private theorem argumentsOf_eq_some {ms : List (String × Json)} {as : List TypeRef} :
    argumentsOf ms = some as ↔
      ∃ items, valuesUnder "arguments" ms = [.array items] ∧ List.Forall₂ Reads items as := by
  induction ms with
  | nil => simp [argumentsOf, valuesUnder]
  | cons m ms ih =>
    obtain ⟨key, v⟩ := m
    rw [argumentsOf.eq_def]
    dsimp only
    by_cases hkey : key = "arguments"
    · subst hkey
      rw [if_pos rfl, valuesUnder_cons_self]
      cases valuesUnder "arguments" ms with
      | cons first rest => simp
      | nil =>
        cases v with
        | array items => simpa using ofJsonList?_eq_some
        | _ => simp
    · rw [if_neg hkey, valuesUnder_cons_of_ne hkey, ih]

private theorem elementOf_eq_some {ms : List (String × Json)} {e : TypeRef} :
    elementOf ms = some e ↔ ∃ v, valuesUnder "array" ms = [v] ∧ Reads v e := by
  induction ms with
  | nil => simp [elementOf, valuesUnder]
  | cons m ms ih =>
    obtain ⟨key, v⟩ := m
    rw [elementOf]
    by_cases hkey : key = "array"
    · subst hkey
      rw [if_pos rfl, valuesUnder_cons_self]
      constructor
      · intro h
        split at h
        · rename_i hnone
          exact ⟨v, by rw [List.isEmpty_iff.mp hnone], h⟩
        · cases h
      · rintro ⟨v', hv, h⟩
        obtain ⟨rfl, hnone⟩ := List.cons.inj hv
        rw [hnone]
        exact h
    · rw [if_neg hkey, valuesUnder_cons_of_ne hkey, ih]

/-- The object names a definition and lists its arguments. -/
def GenericIn (reads : Json → TypeRef → Prop) (ms : List (String × Json)) (d : String)
    (as : List TypeRef) : Prop :=
  valuesUnder "definition" ms = [.string d] ∧
    ∃ items, valuesUnder "arguments" ms = [.array items] ∧ List.Forall₂ reads items as

/-- The forms of a reference: a text, an object with a definition and arguments, or, if it is not of
this form, an object with an array. References inside are read by `reads`. -/
inductive Form (reads : Json → TypeRef → Prop) : Json → TypeRef → Prop
  | named (name : String) : Form reads (.string name) (.named name)
  | generic {ms : List (String × Json)} {d : String} {as : List TypeRef} :
      GenericIn reads ms d as → Form reads (.object ms) (.generic d as)
  | array {ms : List (String × Json)} {v : Json} {e : TypeRef} :
      (∀ d as, ¬ GenericIn reads ms d as) → valuesUnder "array" ms = [v] → reads v e →
        Form reads (.object ms) (.array e)

private theorem genericIn_iff {ms : List (String × Json)} {d : String} {as : List TypeRef} :
    GenericIn Reads ms d as ↔ definitionOf ms = some d ∧ argumentsOf ms = some as := by
  rw [GenericIn, definitionOf_eq_some, argumentsOf_eq_some]

private theorem ofJson?_object (ms : List (String × Json)) :
    ofJson? (.object ms) =
      ((definitionOf ms).bind fun d => (argumentsOf ms).map (.generic d)).or
        ((elementOf ms).map .array) := by
  rw [ofJson?]
  cases definitionOf ms with
  | none => rfl
  | some d => cases argumentsOf ms <;> rfl

/-- References are read by the forms, at every depth. -/
def ByForms (reads : Json → TypeRef → Prop) : Prop := ∀ j r, reads j r ↔ Form reads j r

/-- The decoder reads by the forms. -/
theorem byForms_reads : ByForms Reads := by
  intro j r
  constructor
  · intro h
    cases j with
    | string s =>
      rw [Reads, ofJson?] at h
      cases h
      exact .named s
    | object ms =>
      rw [Reads, ofJson?_object, Option.or_eq_some_iff] at h
      rcases h with h | ⟨hnone, h⟩
      · obtain ⟨d, hd, h⟩ := Option.bind_eq_some_iff.mp h
        obtain ⟨as, has, rfl⟩ := Option.map_eq_some_iff.mp h
        exact .generic (genericIn_iff.mpr ⟨hd, has⟩)
      · obtain ⟨e, he, rfl⟩ := Option.map_eq_some_iff.mp h
        obtain ⟨v, hv, hreads⟩ := elementOf_eq_some.mp he
        refine .array (fun d as hgeneric => ?_) hv hreads
        obtain ⟨hd, has⟩ := genericIn_iff.mp hgeneric
        rw [hd, has] at hnone
        cases hnone
    | _ =>
      rw [Reads, ofJson?] at h
      · cases h
      · simp
      · simp
  · intro h
    cases h with
    | named name => rw [Reads, ofJson?]
    | generic hgeneric =>
      obtain ⟨hd, has⟩ := genericIn_iff.mp hgeneric
      rw [Reads, ofJson?_object, hd, has]
      rfl
    | @array ms v e hnot hv hreads =>
      rw [Reads, ofJson?_object, elementOf_eq_some.mpr ⟨v, hv, hreads⟩]
      cases hd : definitionOf ms with
      | none => rfl
      | some d =>
        cases has : argumentsOf ms with
        | none => rfl
        | some as => exact absurd (genericIn_iff.mpr ⟨hd, has⟩) (hnot d as)

/-! ### There is no other reading -/

private theorem sizeOf_lt_of_mem_valuesUnder {key : String} {v : Json} {ms : List (String × Json)}
    (h : v ∈ valuesUnder key ms) : sizeOf v < sizeOf (Json.object ms) := by
  have hlt := List.sizeOf_lt_of_mem (Json.mem_valuesUnder.mp h)
  simp only [Prod.mk.sizeOf_spec] at hlt
  simp only [Json.object.sizeOf_spec]
  omega

private theorem genericIn_congr {reads reads' : Json → TypeRef → Prop} {ms : List (String × Json)}
    (h : ∀ v, sizeOf v < sizeOf (Json.object ms) → ∀ r, reads v r ↔ reads' v r) {d : String}
    {as : List TypeRef} : GenericIn reads ms d as ↔ GenericIn reads' ms d as := by
  refine and_congr_right fun _ => exists_congr fun items => and_congr_right fun hitems => ?_
  have hsame : ∀ v ∈ items, ∀ r, reads v r ↔ reads' v r := fun v hv => by
    have hin : Json.array items ∈ valuesUnder "arguments" ms := by simp [hitems]
    have hlt := List.sizeOf_lt_of_mem hv
    have hlt' := sizeOf_lt_of_mem_valuesUnder hin
    simp only [Json.array.sizeOf_spec] at hlt'
    exact h v (by omega)
  exact ⟨fun h => forall₂_imp_of_mem h fun v hv r _ => (hsame v hv r).mp,
    fun h => forall₂_imp_of_mem h fun v hv r _ => (hsame v hv r).mpr⟩

/-- What is read depends only on how the values inside are read. -/
theorem form_congr {reads reads' : Json → TypeRef → Prop} {j : Json}
    (h : ∀ v, sizeOf v < sizeOf j → ∀ r, reads v r ↔ reads' v r) {r : TypeRef}
    (hform : Form reads j r) : Form reads' j r := by
  cases hform with
  | named name => exact .named name
  | generic hgeneric => exact .generic ((genericIn_congr h).mp hgeneric)
  | @array ms v e hnot hv hreads =>
    refine .array (fun d as hgeneric => hnot d as ((genericIn_congr h).mpr hgeneric)) hv ?_
    have hin : v ∈ valuesUnder "array" ms := by simp [hv]
    exact (h v (sizeOf_lt_of_mem_valuesUnder hin) e).mp hreads

/-- Only the decoder reads by the forms. -/
theorem ByForms.reads_iff {reads : Json → TypeRef → Prop} (h : ByForms reads) (j : Json)
    (r : TypeRef) : reads j r ↔ Reads j r := by
  induction hn : sizeOf j using Nat.strongRecOn generalizing j r with
  | _ n ih =>
    have hsame : ∀ v, sizeOf v < sizeOf j → ∀ r, reads v r ↔ Reads v r :=
      fun v hv r => ih (sizeOf v) (hn ▸ hv) v r rfl
    rw [h j r, byForms_reads j r]
    exact ⟨form_congr hsame, form_congr fun v hv r => (hsame v hv r).symm⟩

theorem byForms_iff {reads : Json → TypeRef → Prop} : ByForms reads ↔ reads = Reads := by
  constructor
  · intro h
    funext j r
    exact propext (h.reads_iff j r)
  · rintro rfl
    exact byForms_reads

/-! ## Round trip -/

mutual

theorem ofJson?_toJson : (r : TypeRef) → ofJson? r.toJson = some r
  | .named name => by rw [toJson, ofJson?]
  | .generic d as => by
    have hreads : Reads (toJson (.generic d as)) (.generic d as) := by
      rw [toJson, byForms_reads]
      exact .generic ⟨rfl, toJsonList as, rfl, ofJsonList?_eq_some.mp (ofJsonList?_toJsonList as)⟩
    exact hreads
  | .array e => by
    have hreads : Reads (toJson (.array e)) (.array e) := by
      rw [toJson, byForms_reads]
      refine .array (fun d as hgeneric => ?_) rfl (ofJson?_toJson e)
      cases hgeneric.1
    exact hreads

private theorem ofJsonList?_toJsonList : (rs : List TypeRef) → ofJsonList? (toJsonList rs) = some rs
  | [] => by rw [toJsonList, ofJsonList?]
  | r :: rs => by
    rw [toJsonList, ofJsonList?, ofJson?_toJson r, ofJsonList?_toJsonList rs]

end

mutual

private theorem isReadable_toJson : (r : TypeRef) → r.toJson.isReadable = true
  | .named name => by rw [toJson, Json.isReadable] <;> simp
  | .generic d as => by
    rw [toJson, Json.isReadable_object_iff]
    simp only [List.forall_mem_cons, Json.isReadable_array_iff]
    exact ⟨by rw [Json.isReadable] <;> simp, isReadable_toJsonList as, by simp⟩
  | .array e => by
    rw [toJson, Json.isReadable_object_iff]
    simpa using isReadable_toJson e

private theorem isReadable_toJsonList :
    (rs : List TypeRef) → ∀ j ∈ toJsonList rs, j.isReadable = true
  | [] => by simp [toJsonList]
  | r :: rs => by
    rw [toJsonList, List.forall_mem_cons]
    exact ⟨isReadable_toJson r, isReadable_toJsonList rs⟩

end

theorem toJsonList_eq_map (rs : List TypeRef) : toJsonList rs = rs.map toJson := by
  induction rs with
  | nil => rfl
  | cons r rs ih => rw [toJsonList, ih, List.map_cons]

theorem decode?_toJson (r : TypeRef) : decode? r.toJson = some r := by
  rw [decode?, if_pos (isReadable_toJson r), ofJson?_toJson]

theorem decode?_eq_some {j : Json} {r : TypeRef} :
    decode? j = some r ↔ j.isReadable = true ∧ Reads j r := by
  unfold decode?
  split
  · rename_i h
    simp [h, Reads]
  · rename_i h
    simp [h]

/-! ## Alterations -/

/-- The keys that some form asks for. -/
def formKeys : List String := ["definition", "arguments", "array"]

/-- No form can use the value under the key: none asks for the key, or none for such a value. -/
def Unread (key : String) (v : Json) : Prop :=
  key ∉ formKeys ∨ (key = "definition" ∧ ∀ s, v ≠ .string s) ∨
    (key = "arguments" ∧ ∀ items, v ≠ .array items)

/-- The value is neither a text nor an object, so that no form is tried. -/
def Formless (v : Json) : Prop := (∀ s, v ≠ .string s) ∧ ∀ ms, v ≠ .object ms

/-- A change of a value, as a reference or inside it, that no form takes notice of. -/
inductive Alteration : Json → Json → Prop
  | reorder {ms ms' : List (String × Json)} :
      ms.Perm ms' → Alteration (.object ms) (.object ms')
  | insert {key : String} {v : Json} {ms : List (String × Json)} :
      key ∉ formKeys → v.isReadable = true → Alteration (.object ms) (.object ((key, v) :: ms))
  | unread {key : String} {v v' : Json} {ms : List (String × Json)} :
      Unread key v → Unread key v' → v'.isReadable = v.isReadable →
        Alteration (.object ((key, v) :: ms)) (.object ((key, v') :: ms))
  | argument {v v' : Json} {before after : List Json} {ms : List (String × Json)} :
      Alteration v v' →
        Alteration (.object (("arguments", .array (before ++ v :: after)) :: ms))
          (.object (("arguments", .array (before ++ v' :: after)) :: ms))
  | element {v v' : Json} {ms : List (String × Json)} :
      Alteration v v' → Alteration (.object (("array", v) :: ms)) (.object (("array", v') :: ms))
  | formless {v v' : Json} :
      Formless v → Formless v' → v'.isReadable = v.isReadable → Alteration v v'

section Members

variable {key : String} {v v' : Json} {ms ms' : List (String × Json)}

private theorem ofJson?_congr (hd : definitionOf ms' = definitionOf ms)
    (ha : argumentsOf ms' = argumentsOf ms) (he : elementOf ms' = elementOf ms) :
    ofJson? (.object ms') = ofJson? (.object ms) := by
  rw [ofJson?_object, ofJson?_object, hd, ha, he]

private theorem ofJson?_perm (h : ms.Perm ms') : ofJson? (.object ms') = ofJson? (.object ms) := by
  have hsingle : ∀ key v, valuesUnder key ms' = [v] ↔ valuesUnder key ms = [v] :=
    fun key v => Json.valuesUnder_eq_toList_of_perm h (o := some v)
  refine ofJson?_congr ?_ ?_ ?_
  · ext d
    rw [definitionOf_eq_some, definitionOf_eq_some, hsingle]
  · ext as
    simp only [argumentsOf_eq_some, hsingle]
  · ext e
    simp only [elementOf_eq_some, hsingle]

private theorem isReadable_perm (h : ms.Perm ms') :
    (Json.object ms').isReadable = (Json.object ms).isReadable := by
  rw [Bool.eq_iff_iff, Json.isReadable_object_iff, Json.isReadable_object_iff]
  exact forall_congr' fun m => by rw [h.mem_iff]

private theorem definitionOf_cons_of_ne (h : key ≠ "definition") :
    definitionOf ((key, v) :: ms) = definitionOf ms := by
  unfold definitionOf
  rw [valuesUnder_cons_of_ne h]

private theorem argumentsOf_cons_of_ne (h : key ≠ "arguments") :
    argumentsOf ((key, v) :: ms) = argumentsOf ms := by
  rw [argumentsOf.eq_def]
  exact if_neg h

private theorem argumentsOf_cons_array (items : List Json) :
    argumentsOf (("arguments", .array items) :: ms) =
      if valuesUnder "arguments" ms = [] then ofJsonList? items else none := by
  rw [argumentsOf.eq_def]
  dsimp only
  rw [if_pos rfl]
  cases valuesUnder "arguments" ms <;> rfl

private theorem elementOf_cons_of_ne (h : key ≠ "array") :
    elementOf ((key, v) :: ms) = elementOf ms := by
  rw [elementOf, if_neg h]

private theorem ofJson?_insert (h : key ∉ formKeys) :
    ofJson? (.object ((key, v) :: ms)) = ofJson? (.object ms) := by
  simp only [formKeys, List.mem_cons, List.not_mem_nil, or_false, not_or] at h
  exact ofJson?_congr (definitionOf_cons_of_ne h.1) (argumentsOf_cons_of_ne h.2.1)
    (elementOf_cons_of_ne h.2.2)

private theorem definitionOf_cons_self (h : ∀ s, v ≠ .string s) :
    definitionOf (("definition", v) :: ms) = none := by
  ext d
  rw [definitionOf_eq_some, valuesUnder_cons_self]
  simp [h d]

private theorem argumentsOf_cons_self (h : ∀ items, v ≠ .array items) :
    argumentsOf (("arguments", v) :: ms) = none := by
  ext as
  rw [argumentsOf_eq_some, valuesUnder_cons_self]
  simp [h]

/-- Another value under a key matters only to what is read from this key. -/
theorem ofJson?_replace
    (hd : key = "definition" → definitionOf ((key, v') :: ms) = definitionOf ((key, v) :: ms))
    (ha : key = "arguments" → argumentsOf ((key, v') :: ms) = argumentsOf ((key, v) :: ms))
    (he : key = "array" → elementOf ((key, v') :: ms) = elementOf ((key, v) :: ms)) :
    ofJson? (.object ((key, v') :: ms)) = ofJson? (.object ((key, v) :: ms)) := by
  refine ofJson?_congr ?_ ?_ ?_
  · by_cases hkey : key = "definition"
    · exact hd hkey
    · rw [definitionOf_cons_of_ne hkey, definitionOf_cons_of_ne hkey]
  · by_cases hkey : key = "arguments"
    · exact ha hkey
    · rw [argumentsOf_cons_of_ne hkey, argumentsOf_cons_of_ne hkey]
  · by_cases hkey : key = "array"
    · exact he hkey
    · rw [elementOf_cons_of_ne hkey, elementOf_cons_of_ne hkey]

/-- What no form can use may be replaced by something else that none can. -/
theorem ofJson?_unread (h : Unread key v) (h' : Unread key v') :
    ofJson? (.object ((key, v') :: ms)) = ofJson? (.object ((key, v) :: ms)) := by
  refine ofJson?_replace (fun hkey => ?_) (fun hkey => ?_) fun hkey => ?_
  · subst hkey
    have hnot : ∀ {w}, Unread "definition" w → ∀ s, w ≠ .string s := by simp [Unread, formKeys]
    rw [definitionOf_cons_self (hnot h), definitionOf_cons_self (hnot h')]
  · subst hkey
    have hnot : ∀ {w}, Unread "arguments" w → ∀ items, w ≠ .array items := by
      simp [Unread, formKeys]
    rw [argumentsOf_cons_self (hnot h), argumentsOf_cons_self (hnot h')]
  · -- Whatever stands under this key could be a reference.
    simp [hkey, Unread, formKeys] at h

private theorem ofJson?_formless {j : Json} (h : Formless j) : ofJson? j = none := by
  cases j with
  | string s => exact absurd rfl (h.1 s)
  | object ms => exact absurd rfl (h.2 ms)
  | _ => rw [ofJson?] <;> simp

private theorem isReadable_cons :
    (Json.object ((key, v) :: ms)).isReadable = (v.isReadable && (Json.object ms).isReadable) := by
  rw [Json.isReadable, Json.isReadable, Json.allReadableMembers]

end Members

private theorem ofJsonList?_replace {v v' : Json} (h : ofJson? v' = ofJson? v)
    (before after : List Json) :
    ofJsonList? (before ++ v' :: after) = ofJsonList? (before ++ v :: after) := by
  induction before with
  | nil => rw [List.nil_append, List.nil_append, ofJsonList?, ofJsonList?, h]
  | cons first before ih => rw [List.cons_append, List.cons_append, ofJsonList?, ofJsonList?, ih]

private theorem isReadable_replace {v v' : Json} (h : v'.isReadable = v.isReadable)
    (before after : List Json) :
    (Json.array (before ++ v' :: after)).isReadable =
      (Json.array (before ++ v :: after)).isReadable := by
  rw [Bool.eq_iff_iff, Json.isReadable_array_iff, Json.isReadable_array_iff]
  simp only [List.forall_mem_append, List.forall_mem_cons, h]

/-- An altered value is read as before. -/
theorem Alteration.kept {j j' : Json} (h : Alteration j j') :
    j'.isReadable = j.isReadable ∧ ofJson? j' = ofJson? j := by
  induction h with
  | reorder hperm => exact ⟨isReadable_perm hperm, ofJson?_perm hperm⟩
  | insert hkey hv => exact ⟨by rw [isReadable_cons, hv, Bool.true_and], ofJson?_insert hkey⟩
  | unread h h' hreadable =>
    exact ⟨by rw [isReadable_cons, isReadable_cons, hreadable], ofJson?_unread h h'⟩
  | @argument v v' before after ms _ ih =>
    refine ⟨by rw [isReadable_cons, isReadable_cons, isReadable_replace ih.1],
      ofJson?_replace (by simp) (fun _ => ?_) (by simp)⟩
    rw [argumentsOf_cons_array, argumentsOf_cons_array, ofJsonList?_replace ih.2]
  | @element v v' ms _ ih =>
    refine ⟨by rw [isReadable_cons, isReadable_cons, ih.1],
      ofJson?_replace (by simp) (by simp) fun _ => ?_⟩
    rw [elementOf, elementOf, ih.2]
  | formless h h' hreadable =>
    exact ⟨hreadable, by rw [ofJson?_formless h, ofJson?_formless h']⟩

theorem Alteration.decode?_eq {j j' : Json} (h : Alteration j j') : decode? j' = decode? j := by
  rw [decode?, decode?, h.kept.1, h.kept.2]

end TypeRef

end HubBindings
