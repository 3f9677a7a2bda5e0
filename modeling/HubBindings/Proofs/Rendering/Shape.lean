import HubBindings.Proofs.TypeGraph.Answers
import HubBindings.Proofs.WellKnown
import HubBindings.Rendering.Rule
import Mathlib.Tactic.SplitIfs

/-!
What types are to the built-in rules, read off the forms of types and not from the order of rules.

* `Shape.of?` is the shape of a type. Only the task without a result comes before everything; an
  array is a list, a type with arguments is looked up by its definition and then by its name, and a
  type without arguments by its name;
* `Shape.Fits` says what is known of a type with a shape, and `Shape.exists_fits` that every type
  has a fitting one. Here the tables of names are kept apart: a metadata name ends with the number
  of type parameters, so that no type with arguments has the name of a primitive type
  (`primitive_of_arity`), and a collection has as many arguments as its kind asks for
  (`arity_of_ofName?`);
* `Shape.Fits.find?`: the first built-in rule in charge of a type is that of its shape.
-/

namespace HubBindings

open Sequencing TypeGraph WellKnown

variable {g : TypeGraph} {w : WellKnown} {ty : TypeId}

/-! ## Shapes -/

/-- What a type with a task or a stream as its definition is. Settings may give one name to both. -/
inductive Carrier where
  | task
  | stream
  | taskAndStream
  deriving DecidableEq, Repr

namespace Carrier

def isTask : Carrier → Bool
  | stream => false
  | _ => true

def isStream : Carrier → Bool
  | task => false
  | _ => true

/-- What the types constructed from a definition are. -/
def of? (w : WellKnown) (d : TypeId) : Option Carrier :=
  if w.genericTask = some d then
    if w.asyncEnumerable = some d ∨ w.channelReader = some d then some taskAndStream else some task
  else if w.asyncEnumerable = some d ∨ w.channelReader = some d then some stream
  else none

theorem isTask_iff {d : TypeId} :
    (∃ kind, of? w d = some kind ∧ kind.isTask = true) ↔ w.genericTask = some d := by
  unfold of?
  split_ifs <;> simp [*, isTask]

theorem isStream_iff {d : TypeId} :
    (∃ kind, of? w d = some kind ∧ kind.isStream = true) ↔
      w.asyncEnumerable = some d ∨ w.channelReader = some d := by
  unfold of?
  split_ifs <;> simp [*, isStream]

end Carrier

/-- What a type is to the built-in rules, with the types that its rendering goes on to. -/
inductive Shape where
  | task
  | carrier (kind : Carrier) (inner : TypeId)
  | primitive (text : String)
  | list (element : TypeId)
  | dictionary (key value : TypeId)
  | optional (inner : TypeId)
  | data (definition : TypeId) (name : String) (arguments : List TypeId)
  /-- No rule is in charge. -/
  | unclaimed
  deriving DecidableEq, Repr

namespace Shape

/-- The rule in charge of the types of a shape. -/
def rule? : Shape → Option Rule
  | task => some .task
  | carrier kind _ => some (if kind.isTask then .genericTask else .stream)
  | primitive _ => some .primitive
  | list _ => some .collection
  | dictionary _ _ => some .collection
  | optional _ => some .collection
  | data _ _ _ => some .dataType
  | unclaimed => none

/-- Whether the types of a shape are streams. -/
def isStream : Shape → Bool
  | carrier kind _ => kind.isStream
  | _ => false

/-- The types that a rendering goes on to, in their order. -/
def parts : Shape → List TypeId
  | task => []
  | carrier _ inner => [inner]
  | primitive _ => []
  | list element => [element]
  | dictionary key value => [key, value]
  | optional inner => [inner]
  | data _ _ arguments => arguments
  | unclaimed => []

/-- A type that is in no table: a data type if a fragment of it is marked. -/
def unlisted? (g : TypeGraph) (w : WellKnown) (ty : TypeId) : Option Shape := do
  if ← g.hasAttribute? ty w.dataTypeMarker then
    return data (← g.definition? ty) (← g.name? ty) (← g.arguments? ty)
  else return unclaimed

/-- A type without arguments. -/
def plain? (g : TypeGraph) (w : WellKnown) (ty : TypeId) : Option Shape := do
  let name ← g.metadataName? ty
  ((primitiveTexts.lookup name).map fun text => some (primitive text)).getD (unlisted? g w ty)

/-- A collection with a known name and some arguments. -/
def ofKind? : CollectionKind → (first : TypeId) → (rest : List TypeId) → Option Shape
  | .sequence, a, [] => some (list a)
  | .dictionary, k, [v] => some (dictionary k v)
  | .nullable, a, [] => some (optional a)
  | _, _, _ => none

/-- A type with arguments whose definition is no task and no stream. -/
def ofArguments? (g : TypeGraph) (w : WellKnown) (ty first : TypeId) (rest : List TypeId) :
    Option Shape := do
  let kind := CollectionKind.ofName? (← g.metadataName? ty)
  ((kind.bind fun k => ofKind? k first rest).map some).getD (unlisted? g w ty)

/-- The shape of a type. -/
def of? (g : TypeGraph) (w : WellKnown) (ty : TypeId) : Option Shape := do
  if w.isTask ty then return task
  else
    match ← g.form? ty with
    | .array e => return list e
    | .constructed d (a :: as) =>
      ((Carrier.of? w d).map fun kind => some (carrier kind a)).getD (ofArguments? g w ty a as)
    | _ => plain? g w ty

end Shape

/-! ## Names with type parameters -/

namespace TypeHead

private theorem metadataName_of_arity {h : TypeHead} (harity : h.arity ≠ 0) :
    h.metadataName = h.qualifiedName ++ "`" ++ toString h.arity := if_neg harity

private theorem backtick_not_mem_toString (n : Nat) : '\x60' ∉ (toString n).toList := by
  intro hmem
  rw [Nat.toString_eq_ofList_toDigits, String.toList_ofList] at hmem
  exact absurd (Nat.isDigit_of_mem_toDigits (by decide) (by decide) hmem) (by decide)

/-- What stands after the last backtick is the number of type parameters. -/
theorem arity_of_metadataName {h : TypeHead} {stem : String} {n : Nat} (harity : h.arity ≠ 0)
    (hname : h.metadataName = stem ++ "`" ++ toString n) : h.arity = n := by
  have hsplit : ∀ (stem : String) (n : Nat),
      (stem ++ "`" ++ toString n).toList.reverse.takeWhile (· != '\x60') =
        (toString n).toList.reverse := by
    intro stem n
    have hdigits : ∀ c ∈ (toString n).toList.reverse, (c != '\x60') = true := by
      intro c hc
      rw [bne_iff_ne]
      rintro rfl
      exact backtick_not_mem_toString n (List.mem_reverse.mp hc)
    have hreverse : (stem ++ "`" ++ toString n).toList.reverse =
        (toString n).toList.reverse ++ '\x60' :: stem.toList.reverse := by
      simp
    rw [hreverse, List.takeWhile_append_of_pos hdigits]
    simp
  have hdigits := hsplit stem n
  rw [← hname, metadataName_of_arity harity, hsplit, List.reverse_inj,
    Nat.toString_eq_ofList_toDigits, Nat.toString_eq_ofList_toDigits, String.toList_ofList,
    String.toList_ofList] at hdigits
  calc h.arity = Nat.ofDigitChars 10 (Nat.toDigits 10 h.arity) 0 :=
        Nat.ofDigitChars_ten_toDigits.symm
    _ = Nat.ofDigitChars 10 (Nat.toDigits 10 n) 0 := by rw [hdigits]
    _ = n := Nat.ofDigitChars_ten_toDigits

theorem primitive_of_arity {h : TypeHead} (harity : h.arity ≠ 0) :
    primitiveTexts.lookup h.metadataName = none := by
  rw [List.lookup_eq_none_iff]
  intro p hp
  have hkeys : ∀ p ∈ primitiveTexts, '\x60' ∉ p.1.toList := by decide +kernel
  rw [bne_iff_ne, metadataName_of_arity harity]
  intro e
  refine hkeys p hp ?_
  rw [← e]
  simp

end TypeHead

/-- The number of arguments that a collection with a known name has. -/
def CollectionKind.argumentCount : CollectionKind → Nat
  | array _ => 0
  | sequence => 1
  | dictionary => 2
  | nullable => 1

theorem CollectionKind.ofName?_eq_some {name : String} {kind : CollectionKind}
    (h : CollectionKind.ofName? name = some kind) :
    ∃ stem, name = stem ++ "`" ++ toString kind.argumentCount := by
  have hsequences : ∀ name ∈ sequenceNames,
      name = String.ofList name.toList.dropLast.dropLast ++ "`" ++ toString 1 := by
    decide +kernel
  have hdictionaries : ∀ name ∈ dictionaryNames,
      name = String.ofList name.toList.dropLast.dropLast ++ "`" ++ toString 2 := by
    decide +kernel
  unfold CollectionKind.ofName? at h
  split at h
  · rename_i hmem
    cases h
    exact ⟨_, hsequences name (List.contains_iff_mem.mp hmem)⟩
  · split at h
    · rename_i hmem
      cases h
      exact ⟨_, hdictionaries name (List.contains_iff_mem.mp hmem)⟩
    · split at h
      · rename_i hname
        cases h
        exact ⟨"System.Nullable", hname⟩
      · cases h

theorem TypeHead.arity_of_ofName? {h : TypeHead} {kind : CollectionKind} (harity : h.arity ≠ 0)
    (hkind : CollectionKind.ofName? h.metadataName = some kind) : h.arity = kind.argumentCount := by
  obtain ⟨stem, hname⟩ := CollectionKind.ofName?_eq_some hkind
  exact arity_of_metadataName harity hname

/-! ## Names of types by their forms -/

/-- A type with arguments has the name of a declared type with as many type parameters. -/
theorem metadataName?_of_arguments (hg : Consistent g) {d a : TypeId} {as : List TypeId}
    (hf : g.form? ty = some (.constructed d (a :: as))) :
    ∃ h : TypeHead, g.metadataName? ty = some h.metadataName ∧ h.arity = as.length + 1 := by
  have hissued : g.Issued d := (issued_iff_form?.mpr ⟨_, hf⟩ : g.Issued ty).of_lt
    (hg.descends hf d List.mem_cons_self)
  obtain ⟨f, hd⟩ := issued_iff_form?.mp hissued
  have harity := hg.arity hf
  cases f with
  | declared h =>
    rw [arity?, head?_of_declared hd] at harity
    exact ⟨h, metadataName?_of_constructed hf hd, Option.some.inj harity⟩
  | array e =>
    obtain ⟨s, hs, hform⟩ := symbol?_of_form? hd
    simp [arity?, head?, hs, hform, TypeHead.ofArray] at harity
  | constructed d' as' => exact absurd hd (hg.plain hf d' as')

/-- The name of an array ends with a pair of brackets. -/
theorem metadataName?_of_array {e : TypeId} {n : String} (hf : g.form? ty = some (.array e))
    (hn : g.metadataName? ty = some n) : ∃ stem, n = stem ++ "[]" := by
  obtain ⟨room, hroom⟩ := Nat.exists_eq_succ_of_ne_zero (Nat.ne_of_gt (typeCount_pos hf))
  have hpeel : g.peel? ty = (g.peelWithin room e).map fun p => (p.1, p.2 + 1) := by
    rw [peel?, hroom, peelWithin, element?_eq_form?, hf]
    rfl
  unfold metadataName? at hn
  rw [hpeel] at hn
  obtain ⟨p, hp, hn⟩ := Option.bind_eq_some_iff.mp hn
  obtain ⟨⟨root, rank⟩, _, rfl⟩ := Option.map_eq_some_iff.mp hp
  obtain ⟨d, _, hn⟩ := Option.bind_eq_some_iff.mp hn
  obtain ⟨h, _, hn⟩ := Option.bind_eq_some_iff.mp hn
  refine ⟨h.metadataName ++ String.join (List.replicate rank "[]"), ?_⟩
  cases hn
  rw [List.replicate_succ', String.join, List.foldl_append, List.foldl_cons, List.foldl_nil,
    ← String.join, String.append_assoc]

private theorem primitive_of_array {stem : String} :
    primitiveTexts.lookup (stem ++ "[]") = none := by
  rw [List.lookup_eq_none_iff]
  intro p hp
  have hkeys : ∀ p ∈ primitiveTexts, p.1.toList.getLast? ≠ some ']' := by decide +kernel
  rw [bne_iff_ne]
  intro e
  refine hkeys p hp ?_
  rw [← e]
  simp

/-! ## Shapes that fit -/

/-- A type that the first five built-in rules leave alone, and that is no array. -/
structure Unlisted (g : TypeGraph) (w : WellKnown) (ty : TypeId) : Prop where
  task : w.isTask ty = false
  element : g.element? ty = some none
  carrier : ∀ {d a as}, g.form? ty = some (.constructed d (a :: as)) → Carrier.of? w d = none
  name : ∃ n, g.metadataName? ty = some n ∧ primitiveTexts.lookup n = none ∧
    ∀ {a as}, g.arguments? ty = some (a :: as) → CollectionKind.ofName? n = none

namespace Shape

theorem ofKind?_eq_some {kind : CollectionKind} {a : TypeId} {as : List TypeId} {s : Shape}
    (h : ofKind? kind a as = some s) :
    kind = .sequence ∧ as = [] ∧ s = list a ∨
      kind = .dictionary ∧ (∃ v, as = [v] ∧ s = dictionary a v) ∨
      kind = .nullable ∧ as = [] ∧ s = optional a := by
  unfold ofKind? at h
  split at h <;> simp_all

theorem rule?_of_ofKind? {kind : CollectionKind} {a : TypeId} {as : List TypeId} {s : Shape}
    (h : ofKind? kind a as = some s) : s.rule? = some .collection := by
  obtain ⟨_, _, rfl⟩ | ⟨_, _, _, rfl⟩ | ⟨_, _, rfl⟩ := ofKind?_eq_some h <;> rfl

private theorem exists_ofKind? {kind : CollectionKind} (a : TypeId) {as : List TypeId}
    (h : as.length + 1 = kind.argumentCount) : ∃ s, ofKind? kind a as = some s := by
  cases kind with
  | array e => cases h
  | sequence => exact ⟨_, by rw [List.length_eq_zero_iff.mp (Nat.succ.inj h), ofKind?]⟩
  | nullable => exact ⟨_, by rw [List.length_eq_zero_iff.mp (Nat.succ.inj h), ofKind?]⟩
  | dictionary =>
    obtain ⟨v, rfl⟩ := List.length_eq_one_iff.mp (Nat.succ.inj h)
    exact ⟨_, by rw [ofKind?]⟩

/-- What is known of a type with a shape. -/
inductive Fits (g : TypeGraph) (w : WellKnown) (ty : TypeId) : Shape → Prop
  | task : w.isTask ty = true → Fits g w ty task
  | carrier {d a : TypeId} {as : List TypeId} {kind : Carrier} :
      w.isTask ty = false → g.form? ty = some (.constructed d (a :: as)) →
      Carrier.of? w d = some kind → Fits g w ty (carrier kind a)
  | primitive {n text : String} :
      w.isTask ty = false → g.arguments? ty = some [] → g.element? ty = some none →
      g.metadataName? ty = some n → primitiveTexts.lookup n = some text →
        Fits g w ty (primitive text)
  | array {e : TypeId} {n : String} :
      w.isTask ty = false → g.form? ty = some (.array e) → g.metadataName? ty = some n →
      primitiveTexts.lookup n = none → Fits g w ty (list e)
  | collection {d a : TypeId} {as : List TypeId} {n : String} {kind : CollectionKind} {s : Shape} :
      w.isTask ty = false → g.form? ty = some (.constructed d (a :: as)) →
      Carrier.of? w d = none → g.metadataName? ty = some n → primitiveTexts.lookup n = none →
      CollectionKind.ofName? n = some kind → ofKind? kind a as = some s → Fits g w ty s
  | data {d : TypeId} {n : String} {as : List TypeId} :
      Unlisted g w ty → g.hasAttribute? ty w.dataTypeMarker = some true →
      g.definition? ty = some d → g.name? ty = some n → g.arguments? ty = some as →
        Fits g w ty (data d n as)
  | unclaimed :
      Unlisted g w ty → g.hasAttribute? ty w.dataTypeMarker = some false →
        Fits g w ty unclaimed

section Issued

variable (hg : Consistent g) (hty : g.Issued ty)
include hg hty

private theorem exists_fits_unlisted (h : Unlisted g w ty) :
    ∃ s, unlisted? g w ty = some s ∧ Fits g w ty s := by
  obtain ⟨b, hb, _⟩ := hasAttribute?_answers hg hty w.dataTypeMarker
  obtain ⟨d, hd, _⟩ := definition?_yields hg hty
  obtain ⟨n, hn, _⟩ := name?_answers hg hty
  obtain ⟨as, has, _⟩ := arguments?_yields hg hty
  cases b with
  | true => exact ⟨_, by simp [unlisted?, hb, hd, hn, has], .data h hb hd hn has⟩
  | false => exact ⟨_, by simp [unlisted?, hb], .unclaimed h hb⟩

private theorem exists_fits_plain (htask : w.isTask ty = false) {f : TypeForm}
    (hf : g.form? ty = some f)
    (he : f.element? = none) (has : f.arguments = []) :
    ∃ s, plain? g w ty = some s ∧ Fits g w ty s := by
  obtain ⟨n, hn, _⟩ := metadataName?_answers hg hty
  have helement : g.element? ty = some none := by rw [element?_of_form? hf, he]
  have harguments : g.arguments? ty = some [] := by rw [arguments?_of_form? hf, has]
  cases hl : primitiveTexts.lookup n with
  | some text =>
    exact ⟨_, by simp [plain?, hn, hl], .primitive htask harguments helement hn hl⟩
  | none =>
    have hunlisted : Unlisted g w ty := by
      refine ⟨htask, helement, fun hform => ?_, n, hn, hl, fun hform => ?_⟩
      · rw [hf, Option.some.injEq] at hform
        rw [hform] at has
        cases has
      · rw [harguments] at hform
        cases hform
    obtain ⟨s, hs, hfits⟩ := exists_fits_unlisted hg hty hunlisted
    exact ⟨s, by simp [plain?, hn, hl, hs], hfits⟩

/-- A collection with a known name has as many arguments as its kind asks for. -/
theorem exists_fits_arguments (htask : w.isTask ty = false) {d a : TypeId} {as : List TypeId}
    (hf : g.form? ty = some (.constructed d (a :: as))) (hcarrier : Carrier.of? w d = none) :
    ∃ s, ofArguments? g w ty a as = some s ∧ Fits g w ty s := by
  obtain ⟨h, hn, harity⟩ := metadataName?_of_arguments hg hf
  have hl : primitiveTexts.lookup h.metadataName = none := TypeHead.primitive_of_arity (by omega)
  cases hkind : CollectionKind.ofName? h.metadataName with
  | none =>
    have hunlisted : Unlisted g w ty := by
      refine ⟨htask, element?_of_form? hf, fun hform => ?_, _, hn, hl, fun _ => hkind⟩
      rw [hf] at hform
      cases hform
      exact hcarrier
    obtain ⟨s, hs, hfits⟩ := exists_fits_unlisted hg hty hunlisted
    exact ⟨s, by simp [ofArguments?, hn, hkind, hs], hfits⟩
  | some kind =>
    have hcount := TypeHead.arity_of_ofName? (by omega) hkind
    obtain ⟨s, hs⟩ := exists_ofKind? a (harity.symm.trans hcount)
    exact ⟨s, by simp [ofArguments?, hn, hkind, hs], .collection htask hf hcarrier hn hl hkind hs⟩

/-- Every type has a shape, and it fits. -/
theorem exists_fits : ∃ s, of? g w ty = some s ∧ Fits g w ty s := by
  obtain ⟨f, hf⟩ := issued_iff_form?.mp hty
  cases htask : w.isTask ty with
  | true => exact ⟨_, by simp [of?, htask], .task htask⟩
  | false =>
    cases f with
    | declared h =>
      obtain ⟨s, hs, hfits⟩ := exists_fits_plain hg hty htask hf rfl rfl
      exact ⟨s, by simp [of?, htask, hf, hs], hfits⟩
    | array e =>
      obtain ⟨n, hn, _⟩ := metadataName?_answers hg hty
      obtain ⟨stem, rfl⟩ := metadataName?_of_array hf hn
      exact ⟨_, by simp [of?, htask, hf], .array htask hf hn primitive_of_array⟩
    | constructed d as =>
      cases as with
      | nil =>
        obtain ⟨s, hs, hfits⟩ := exists_fits_plain hg hty htask hf rfl rfl
        exact ⟨s, by simp [of?, htask, hf, hs], hfits⟩
      | cons a as =>
        cases hcarrier : Carrier.of? w d with
        | some kind => exact ⟨_, by simp [of?, htask, hf, hcarrier], .carrier htask hf hcarrier⟩
        | none =>
          obtain ⟨s, hs, hfits⟩ := exists_fits_arguments hg hty htask hf hcarrier
          exact ⟨s, by simp [of?, htask, hf, hcarrier, hs], hfits⟩

end Issued

/-! ## The rule of a shape -/

section Claims

private theorem isConstructedFrom?_of_no_arguments {f : TypeForm} (hf : g.form? ty = some f)
    (has : f.arguments = []) (o : Option TypeId) : g.isConstructedFrom? ty o = some false := by
  cases o with
  | none => rfl
  | some d =>
    rw [isConstructedFrom?, arguments?_eq_form?, definition?_eq_form?, hf]
    simp [has]

private theorem not_carrier_of_no_arguments {f : TypeForm} (hf : g.form? ty = some f)
    (has : f.arguments = []) :
    w.isGenericTask? g ty = some false ∧ w.isStream? g ty = some false := by
  rw [isGenericTask?, isStream?, isConstructedFrom?_of_no_arguments hf has,
    isConstructedFrom?_of_no_arguments hf has, isConstructedFrom?_of_no_arguments hf has]
  exact ⟨rfl, rfl⟩

private theorem carrier_of_arguments {d a : TypeId} {as : List TypeId}
    (hf : g.form? ty = some (.constructed d (a :: as))) :
    w.isGenericTask? g ty = some ((Carrier.of? w d).any Carrier.isTask) ∧
      w.isStream? g ty = some ((Carrier.of? w d).any Carrier.isStream) := by
  rw [isGenericTask?, isStream?, isConstructedFrom?_of_form? _ hf, isConstructedFrom?_of_form? _ hf,
    isConstructedFrom?_of_form? _ hf, Carrier.of?]
  by_cases ht : w.genericTask = some d <;> by_cases he : w.asyncEnumerable = some d <;>
    by_cases hr : w.channelReader = some d <;> simp [ht, he, hr, Carrier.isTask, Carrier.isStream]

/-- A type that is neither a task nor a stream is left to the last three rules. -/
theorem find?_of_not_carrier (ht : w.isTask ty = false)
    (h : w.isGenericTask? g ty = some false ∧ w.isStream? g ty = some false) :
    Rule.find? g w Rule.builtin ty =
      Rule.find? g w [.primitive, .collection, .dataType] ty := by
  rw [Rule.find?, Rule.builtin, findM?_cons_false (by rw [Rule.claims?, ht]),
    findM?_cons_false (by rw [Rule.claims?, h.1]), findM?_cons_false (by rw [Rule.claims?, h.2])]
  rfl

private theorem find?_of_collection {n : String} {kind : CollectionKind}
    (hn : g.metadataName? ty = some n)
    (hl : primitiveTexts.lookup n = none) (hkind : CollectionKind.of? g ty = some (some kind)) :
    Rule.find? g w [.primitive, .collection, .dataType] ty = some (some .collection) := by
  rw [Rule.find?, findM?_cons_false (by simp [Rule.claims?, hn, hl])]
  exact findM?_cons_true (by simp [Rule.claims?, hkind]) _

theorem collectionKind_of_array {e : TypeId} (hf : g.form? ty = some (.array e)) :
    CollectionKind.of? g ty = some (some (.array e)) := by
  simp [CollectionKind.of?, element?_eq_form?, hf, TypeForm.element?]

theorem collectionKind_of_arguments {d a : TypeId} {as : List TypeId} {n : String}
    (hf : g.form? ty = some (.constructed d (a :: as))) (hn : g.metadataName? ty = some n) :
    CollectionKind.of? g ty = some (CollectionKind.ofName? n) := by
  simp [CollectionKind.of?, element?_eq_form?, arguments?_eq_form?, hf, hn, TypeForm.element?,
    TypeForm.arguments]

end Claims

/-- A type in no table is no task, no stream and no collection. -/
theorem not_claimed_of_unlisted (h : Unlisted g w ty) :
    (w.isGenericTask? g ty = some false ∧ w.isStream? g ty = some false) ∧
      CollectionKind.of? g ty = some none := by
  obtain ⟨_, helement, hcarrier, n, hn, _, hkind⟩ := h
  have hform := helement
  rw [element?_eq_form?] at hform
  obtain ⟨f, hf, he⟩ := Option.map_eq_some_iff.mp hform
  have hplain : f.arguments = [] →
      (w.isGenericTask? g ty = some false ∧ w.isStream? g ty = some false) ∧
        CollectionKind.of? g ty = some none := fun has => by
    refine ⟨not_carrier_of_no_arguments hf has, ?_⟩
    simp [CollectionKind.of?, helement, arguments?_eq_form?, hf, has]
  cases f with
  | declared h => exact hplain rfl
  | array e => cases he
  | constructed d as =>
    cases as with
    | nil => exact hplain rfl
    | cons a as =>
      have hcarriers := carrier_of_arguments (w := w) hf
      rw [hcarrier hf] at hcarriers
      have hnone := hkind (arguments?_of_form? hf)
      exact ⟨hcarriers, by rw [collectionKind_of_arguments hf hn, hnone]⟩

private theorem find?_of_unlisted {b : Bool} (h : Unlisted g w ty)
    (hmarked : g.hasAttribute? ty w.dataTypeMarker = some b) :
    Rule.find? g w Rule.builtin ty = some (if b then some .dataType else none) := by
  obtain ⟨hcarriers, hkind⟩ := not_claimed_of_unlisted h
  obtain ⟨htask, helement, _, n, hn, hl, _⟩ := h
  rw [find?_of_not_carrier htask hcarriers, Rule.find?,
    findM?_cons_false (by simp [Rule.claims?, hn, hl]),
    findM?_cons_false (by simp [Rule.claims?, hkind])]
  cases b with
  | true => exact findM?_cons_true (by simp [Rule.claims?, helement, hmarked]) _
  | false => rw [findM?_cons_false (by simp [Rule.claims?, helement, hmarked])]; rfl

/-- The first built-in rule in charge of a type is that of its shape. -/
theorem Fits.find? {s : Shape} (h : Fits g w ty s) :
    Rule.find? g w Rule.builtin ty = some s.rule? := by
  cases h with
  | task ht => exact findM?_cons_true (by rw [Rule.claims?, ht]) _
  | @carrier d a as kind ht hf hkind =>
    obtain ⟨htask, hstream⟩ := carrier_of_arguments (w := w) hf
    rw [hkind] at htask hstream
    rw [Rule.find?, Rule.builtin, findM?_cons_false (by rw [Rule.claims?, ht])]
    cases kind with
    | task => exact findM?_cons_true (by rw [Rule.claims?, htask]; rfl) _
    | taskAndStream => exact findM?_cons_true (by rw [Rule.claims?, htask]; rfl) _
    | stream =>
      rw [findM?_cons_false (by rw [Rule.claims?, htask]; rfl)]
      exact findM?_cons_true (by rw [Rule.claims?, hstream]; rfl) _
  | @primitive n text ht has he hn hl =>
    have hform := has
    rw [arguments?_eq_form?] at hform
    obtain ⟨f, hf, hargs⟩ := Option.map_eq_some_iff.mp hform
    rw [find?_of_not_carrier ht (not_carrier_of_no_arguments hf hargs)]
    exact findM?_cons_true (by simp [Rule.claims?, hn, hl]) _
  | array ht hf hn hl =>
    rw [find?_of_not_carrier ht (not_carrier_of_no_arguments hf rfl)]
    exact find?_of_collection hn hl (collectionKind_of_array hf)
  | @collection d a as n kind s ht hf hcarrier hn hl hkind hs =>
    have hcarriers := carrier_of_arguments (w := w) hf
    rw [hcarrier] at hcarriers
    rw [find?_of_not_carrier ht hcarriers, rule?_of_ofKind? hs]
    exact find?_of_collection hn hl (by rw [collectionKind_of_arguments hf hn, hkind])
  | data h hmarked _ _ _ => exact find?_of_unlisted h hmarked
  | unclaimed h hmarked => exact find?_of_unlisted h hmarked

/-- A type constructed from a task or a stream has the shape of a carrier. -/
theorem Fits.of_carrier {s : Shape} (h : Fits g w ty s) {d a : TypeId} {as : List TypeId}
    {kind : Carrier} (hf : g.form? ty = some (.constructed d (a :: as)))
    (hkind : Carrier.of? w d = some kind) :
    w.isTask ty = true ∧ s = .task ∨ s = .carrier kind a := by
  have hargs : g.arguments? ty = some (a :: as) := arguments?_of_form? hf
  cases h with
  | task ht => exact .inl ⟨ht, rfl⟩
  | carrier _ hf' hkind' =>
    cases hf.symm.trans hf'
    cases hkind.symm.trans hkind'
    exact .inr rfl
  | primitive _ has _ _ _ => cases hargs.symm.trans has
  | array _ hf' _ _ => cases hf.symm.trans hf'
  | collection _ hf' hnone _ _ _ _ =>
    cases hf.symm.trans hf'
    cases hkind.symm.trans hnone
  | data hunlisted _ _ _ _ => cases hkind.symm.trans (hunlisted.carrier hf)
  | unclaimed hunlisted _ => cases hkind.symm.trans (hunlisted.carrier hf)

/-- A type is a stream if its shape is one. -/
theorem Fits.isStream?
    (hw : ∀ {ty}, w.isTask ty = true → ∃ head, g.form? ty = some (.declared head))
    {s : Shape} (h : Fits g w ty s) : w.isStream? g ty = some s.isStream := by
  cases h with
  | task ht =>
    obtain ⟨head, hf⟩ := hw ht
    exact (not_carrier_of_no_arguments hf rfl).2
  | carrier _ hf hkind =>
    have hstream := (carrier_of_arguments (w := w) hf).2
    rw [hkind] at hstream
    exact hstream
  | primitive _ has _ _ _ =>
    rw [arguments?_eq_form?] at has
    obtain ⟨f, hf, hargs⟩ := Option.map_eq_some_iff.mp has
    exact (not_carrier_of_no_arguments hf hargs).2
  | array _ hf _ _ => exact (not_carrier_of_no_arguments hf rfl).2
  | collection _ hf hcarrier _ _ _ hs =>
    have hstream := (carrier_of_arguments (w := w) hf).2
    rw [hcarrier] at hstream
    obtain ⟨_, _, rfl⟩ | ⟨_, _, _, rfl⟩ | ⟨_, _, rfl⟩ := ofKind?_eq_some hs <;> exact hstream
  | data hunlisted _ _ _ _ => exact (not_claimed_of_unlisted hunlisted).1.2
  | unclaimed hunlisted _ => exact (not_claimed_of_unlisted hunlisted).1.2

end Shape

end HubBindings
