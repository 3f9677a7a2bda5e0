import HubBindings.Proofs.Rendering.Overrides

/-!
The types that the built-in rules render.

* `Mappable` is the least set of types closed under what the rules are for. By shapes it says that a
  rule is in charge of the type and that the parts are in the set (`mappable_iff_parts`), so that a
  type is in it exactly if its tree has no gap (`mappable_iff_gaps`);
* `TypeTree.read_stopsAt`: a reading ends at the first gap of the tree, whatever the position;
* `builtin_domain`: the built-in rules render exactly the types of the set, and of the others they
  name the first type that no rule is in charge of.
-/

namespace HubBindings

open Sequencing TypeGraph WellKnown RenderM Reading

variable {g : TypeGraph} {w : WellKnown} {ty : TypeId} {s : Shape}

/-- The least set of types that is closed under what the built-in rules are for. -/
inductive Mappable (g : TypeGraph) (w : WellKnown) : TypeId → Prop
  | task {ty : TypeId} : w.isTask ty = true → Mappable g w ty
  | taskOf {ty a : TypeId} : TaskOf g w ty a → Mappable g w a → Mappable g w ty
  | streamOf {ty a : TypeId} : StreamOf g w ty a → Mappable g w a → Mappable g w ty
  | primitive {ty : TypeId} {n text : String} :
      g.metadataName? ty = some n → primitiveTexts.lookup n = some text → Mappable g w ty
  | array {ty e : TypeId} : g.element? ty = some (some e) → Mappable g w e → Mappable g w ty
  | sequence {ty a : TypeId} {n : String} :
      g.metadataName? ty = some n → n ∈ sequenceNames → g.arguments? ty = some [a] →
      Mappable g w a → Mappable g w ty
  | nullable {ty a : TypeId} :
      g.metadataName? ty = some nullableName → g.arguments? ty = some [a] →
      Mappable g w a → Mappable g w ty
  | dictionary {ty k v : TypeId} {n : String} :
      g.metadataName? ty = some n → n ∈ dictionaryNames → g.arguments? ty = some [k, v] →
      Mappable g w k → Mappable g w v → Mappable g w ty
  /-- Some fragment of the definition carries the marker of data types. -/
  | dataType {ty : TypeId} {as : List TypeId} :
      g.element? ty = some none → g.hasAttribute? ty w.dataTypeMarker = some true →
      g.arguments? ty = some as → (∀ a ∈ as, Mappable g w a) → Mappable g w ty

/-! ## Mappable types by shapes -/

theorem CollectionKind.ofName?_cases {n : String} {kind : CollectionKind}
    (h : CollectionKind.ofName? n = some kind) :
    kind = .sequence ∧ n ∈ sequenceNames ∨ kind = .dictionary ∧ n ∈ dictionaryNames ∨
      kind = .nullable ∧ n = nullableName := by
  unfold CollectionKind.ofName? at h
  split_ifs at h with hs hd hn
  · exact .inl ⟨(Option.some.inj h).symm, List.contains_iff_mem.mp hs⟩
  · exact .inr (.inl ⟨(Option.some.inj h).symm, List.contains_iff_mem.mp hd⟩)
  · exact .inr (.inr ⟨(Option.some.inj h).symm, hn⟩)

theorem CollectionKind.ofName?_ne_none {n : String}
    (h : n ∈ sequenceNames ∨ n ∈ dictionaryNames ∨ n = nullableName) :
    CollectionKind.ofName? n ≠ none := by
  unfold CollectionKind.ofName?
  split_ifs with hs hd hn
  · exact Option.some_ne_none _
  · exact Option.some_ne_none _
  · exact Option.some_ne_none _
  · rw [List.contains_iff_mem] at hs hd
    exact absurd h (by simp [hs, hd, hn])

private theorem form?_of_arguments {a : TypeId} {as : List TypeId}
    (h : g.arguments? ty = some (a :: as)) : ∃ d, g.form? ty = some (.constructed d (a :: as)) := by
  rw [arguments?_eq_form?] at h
  obtain ⟨f, hf, has⟩ := Option.map_eq_some_iff.mp h
  cases f with
  | constructed d as' =>
    cases has
    exact ⟨d, hf⟩
  | _ => cases has

private theorem form?_of_element {e : TypeId} (h : g.element? ty = some (some e)) :
    g.form? ty = some (.array e) := by
  rw [element?_eq_form?] at h
  obtain ⟨f, hf, he⟩ := Option.map_eq_some_iff.mp h
  cases f with
  | array e' =>
    cases he
    exact hf
  | _ => cases he

namespace Shape

theorem Fits.of_task (h : Fits g w ty s) (ht : w.isTask ty = true) : s = .task := by
  cases h with
  | task _ => rfl
  | carrier hnot _ _ => cases ht.symm.trans hnot
  | primitive hnot _ _ _ _ => cases ht.symm.trans hnot
  | array hnot _ _ _ => cases ht.symm.trans hnot
  | collection hnot _ _ _ _ _ _ => cases ht.symm.trans hnot
  | data hunlisted _ _ _ _ => cases ht.symm.trans hunlisted.task
  | unclaimed hunlisted _ => cases ht.symm.trans hunlisted.task

/-- The parts of a type that is no array are among its arguments. -/
theorem Fits.parts_subset (h : Fits g w ty s) {as : List TypeId} (he : g.element? ty = some none)
    (has : g.arguments? ty = some as) : ∀ a ∈ s.parts, a ∈ as := by
  have hconstructed : ∀ {d as'}, g.form? ty = some (.constructed d as') → as' = as := by
    intro d as' hf
    exact Option.some.inj ((arguments?_of_form? hf).symm.trans has)
  cases h with
  | task _ => simp [parts]
  | carrier _ hf _ =>
    rw [← hconstructed hf]
    simp [parts]
  | primitive _ _ _ _ _ => simp [parts]
  | array _ hf _ _ =>
    cases he.symm.trans (element?_of_form? hf)
  | collection _ hf _ _ _ _ hs =>
    rw [← hconstructed hf]
    obtain ⟨_, rfl, rfl⟩ | ⟨_, _, rfl, rfl⟩ | ⟨_, rfl, rfl⟩ := ofKind?_eq_some hs <;> simp [parts]
  | data _ _ _ _ has' =>
    cases has.symm.trans has'
    exact fun a ha => ha
  | unclaimed _ _ => simp [parts]

/-- A type with arguments and the name of a collection has a rule in charge. -/
theorem Fits.rule?_of_name (h : Fits g w ty s) {a : TypeId} {as : List TypeId} {n : String}
    (has : g.arguments? ty = some (a :: as)) (hn : g.metadataName? ty = some n)
    (hlisted : n ∈ sequenceNames ∨ n ∈ dictionaryNames ∨ n = nullableName) : s.rule? ≠ none := by
  cases h with
  | collection _ _ _ _ _ _ hs => simp [rule?_of_ofKind? hs]
  | unclaimed hunlisted _ =>
    obtain ⟨n', hn', _, hnone⟩ := hunlisted.name
    cases hn.symm.trans hn'
    exact absurd (hnone has) (CollectionKind.ofName?_ne_none hlisted)
  | _ => simp [rule?]

/-- Only the task without a result and the primitive types have the name of a primitive type. -/
theorem Fits.of_primitive (hg : Consistent g) (h : Fits g w ty s) {n text : String}
    (hn : g.metadataName? ty = some n) (hl : primitiveTexts.lookup n = some text) :
    s.rule? ≠ none ∧ s.parts = [] := by
  cases h with
  | task _ => simp [rule?, parts]
  | primitive _ _ _ _ _ => simp [rule?, parts]
  | carrier _ hf _ =>
    obtain ⟨head, hhead, harity⟩ := metadataName?_of_arguments hg hf
    cases hn.symm.trans hhead
    cases hl.symm.trans (TypeHead.primitive_of_arity (by omega))
  | array _ _ hn' hnone =>
    cases hn.symm.trans hn'
    cases hl.symm.trans hnone
  | collection _ _ _ hn' hnone _ _ =>
    cases hn.symm.trans hn'
    cases hl.symm.trans hnone
  | data hunlisted _ _ _ _ =>
    obtain ⟨n', hn', hnone, _⟩ := hunlisted.name
    cases hn.symm.trans hn'
    cases hl.symm.trans hnone
  | unclaimed hunlisted _ =>
    obtain ⟨n', hn', hnone, _⟩ := hunlisted.name
    cases hn.symm.trans hn'
    cases hl.symm.trans hnone

theorem Fits.of_array (h : Fits g w ty s) {e : TypeId} (hf : g.form? ty = some (.array e)) :
    s = .task ∨ s = .list e := by
  have he : g.element? ty = some (some e) := element?_of_form? hf
  cases h with
  | task _ => exact .inl rfl
  | carrier _ hf' _ => cases hf.symm.trans hf'
  | primitive _ _ hnone _ _ => cases he.symm.trans hnone
  | array _ hf' _ _ =>
    cases hf.symm.trans hf'
    exact .inr rfl
  | collection _ hf' _ _ _ _ _ => cases hf.symm.trans hf'
  | data hunlisted _ _ _ _ => cases he.symm.trans hunlisted.element
  | unclaimed hunlisted _ => cases he.symm.trans hunlisted.element

theorem Fits.rule?_of_marked (h : Fits g w ty s)
    (hmarked : g.hasAttribute? ty w.dataTypeMarker = some true) : s.rule? ≠ none := by
  cases h with
  | collection _ _ _ _ _ _ hs => simp [rule?_of_ofKind? hs]
  | unclaimed _ hnot => cases hmarked.symm.trans hnot
  | _ => simp [rule?]

end Shape

/-- A rule is in charge of a mappable type, and its parts are mappable. -/
theorem Mappable.parts (hg : Consistent g) (h : Mappable g w ty) (hfits : s.Fits g w ty) :
    s.rule? ≠ none ∧ ∀ a ∈ s.parts, Mappable g w a := by
  have hcarrier : ∀ {d a as kind}, g.form? ty = some (.constructed d (a :: as)) →
      Carrier.of? w d = some kind → Mappable g w a →
        s.rule? ≠ none ∧ ∀ b ∈ s.parts, Mappable g w b := by
    intro d a as kind hf hkind ha
    rcases hfits.of_carrier hf hkind with ⟨_, rfl⟩ | rfl
    · simp [Shape.rule?, Shape.parts]
    · simpa [Shape.rule?, Shape.parts] using ha
  have hcollection : ∀ {a as n}, g.metadataName? ty = some n →
      (n ∈ sequenceNames ∨ n ∈ dictionaryNames ∨ n = nullableName) →
      g.arguments? ty = some (a :: as) → (∀ b ∈ a :: as, Mappable g w b) →
        s.rule? ≠ none ∧ ∀ b ∈ s.parts, Mappable g w b := by
    intro a as n hn hlisted has hall
    obtain ⟨d, hf⟩ := form?_of_arguments has
    have hparts := hfits.parts_subset (element?_of_form? hf) has
    exact ⟨hfits.rule?_of_name has hn hlisted, fun b hb => hall b (hparts b hb)⟩
  cases h with
  | task ht =>
    rw [hfits.of_task ht]
    simp [Shape.rule?, Shape.parts]
  | taskOf h ha =>
    obtain ⟨d, as, hd, hf⟩ := h
    obtain ⟨kind, hkind, _⟩ := Carrier.isTask_iff.mpr hd
    exact hcarrier hf hkind ha
  | streamOf h ha =>
    obtain ⟨d, as, hd, hf⟩ := h
    obtain ⟨kind, hkind, _⟩ := Carrier.isStream_iff.mpr hd
    exact hcarrier hf hkind ha
  | primitive hn hl =>
    obtain ⟨hrule, hparts⟩ := hfits.of_primitive hg hn hl
    exact ⟨hrule, by simp [hparts]⟩
  | array he ha =>
    rcases hfits.of_array (form?_of_element he) with rfl | rfl
    · simp [Shape.rule?, Shape.parts]
    · simpa [Shape.rule?, Shape.parts] using ha
  | sequence hn hlisted has ha => exact hcollection hn (.inl hlisted) has (by simpa using ha)
  | nullable hn has ha => exact hcollection hn (.inr (.inr rfl)) has (by simpa using ha)
  | dictionary hn hlisted has hk hv =>
    exact hcollection hn (.inr (.inl hlisted)) has (by simpa using ⟨hk, hv⟩)
  | dataType he hmarked has hall =>
    exact ⟨hfits.rule?_of_marked hmarked, fun a ha => hall a (hfits.parts_subset he has a ha)⟩

/-- A type with a rule in charge and mappable parts is mappable. -/
theorem Shape.Fits.mappable (hfits : s.Fits g w ty) (hrule : s.rule? ≠ none)
    (hparts : ∀ a ∈ s.parts, Mappable g w a) : Mappable g w ty := by
  cases hfits with
  | task ht => exact .task ht
  | @carrier d a as kind _ hf hkind =>
    have ha : Mappable g w a := hparts a List.mem_cons_self
    cases htask : kind.isTask with
    | true => exact .taskOf ⟨d, as, Carrier.isTask_iff.mp ⟨kind, hkind, htask⟩, hf⟩ ha
    | false =>
      have hstream : kind.isStream = true := by
        revert htask
        cases kind <;> decide
      exact .streamOf ⟨d, as, Carrier.isStream_iff.mp ⟨kind, hkind, hstream⟩, hf⟩ ha
  | primitive _ _ _ hn hl => exact .primitive hn hl
  | array _ hf _ _ =>
    exact .array (element?_of_form? hf) (hparts _ List.mem_cons_self)
  | @collection d a as n kind s _ hf _ hn _ hkind hs =>
    have has : g.arguments? ty = some (a :: as) := arguments?_of_form? hf
    obtain ⟨rfl, rfl, rfl⟩ | ⟨rfl, v, rfl, rfl⟩ | ⟨rfl, rfl, rfl⟩ := ofKind?_eq_some hs
    · have hlisted : n ∈ sequenceNames := by simpa using CollectionKind.ofName?_cases hkind
      exact .sequence hn hlisted has (hparts a List.mem_cons_self)
    · have hlisted : n ∈ dictionaryNames := by simpa using CollectionKind.ofName?_cases hkind
      exact .dictionary hn hlisted has (hparts a List.mem_cons_self)
        (hparts v (List.mem_cons_of_mem _ List.mem_cons_self))
    · obtain rfl : n = nullableName := by simpa using CollectionKind.ofName?_cases hkind
      exact .nullable hn has (hparts a List.mem_cons_self)
  | data hunlisted hmarked _ _ has => exact .dataType hunlisted.element hmarked has hparts
  | unclaimed _ _ => exact absurd rfl hrule

theorem mappable_iff_parts (hg : Consistent g) (hfits : s.Fits g w ty) :
    Mappable g w ty ↔ s.rule? ≠ none ∧ ∀ a ∈ s.parts, Mappable g w a :=
  ⟨fun h => h.parts hg hfits, fun h => hfits.mappable h.1 h.2⟩

/-! ## Gaps of trees -/

namespace TypeTree

mutual

/-- The types of a tree, depth first and from left to right. -/
def labels : TypeTree → List Label
  | .task label => [label]
  | .carrier label _ inner => label :: inner.labels
  | .primitive label _ => [label]
  | .list label element => label :: element.labels
  | .dictionary label key value => label :: (key.labels ++ value.labels)
  | .optional label inner => label :: inner.labels
  | .data label _ _ arguments => label :: labelsAll arguments
  | .unclaimed label => [label]

def labelsAll : List TypeTree → List Label
  | [] => []
  | t :: ts => t.labels ++ labelsAll ts

end

mutual

/-- The types of a tree that no rule is in charge of, in the same order. -/
def gaps : TypeTree → List Label
  | .task _ => []
  | .carrier _ _ inner => inner.gaps
  | .primitive _ _ => []
  | .list _ element => element.gaps
  | .dictionary _ key value => key.gaps ++ value.gaps
  | .optional _ inner => inner.gaps
  | .data _ _ _ arguments => gapsAll arguments
  | .unclaimed label => [label]

def gapsAll : List TypeTree → List Label
  | [] => []
  | t :: ts => t.gaps ++ gapsAll ts

end

private theorem labelsAll_eq_flatMap (ts : List TypeTree) : labelsAll ts = ts.flatMap labels := by
  induction ts with
  | nil => rfl
  | cons t ts ih => rw [labelsAll, ih, List.flatMap_cons]

private theorem gapsAll_eq_flatMap (ts : List TypeTree) : gapsAll ts = ts.flatMap gaps := by
  induction ts with
  | nil => rfl
  | cons t ts ih => rw [gapsAll, ih, List.flatMap_cons]

end TypeTree

/-- The types of a tree are its own and those of the parts, and so are the gaps. -/
theorem Shape.labels_of_tree? {sub : TypeId → Option TypeTree} {label : Label} {t : TypeTree}
    (h : s.tree? sub label = some t) :
    ∃ ts, List.Forall₂ (fun a t => sub a = some t) s.parts ts ∧
      t.labels = label :: ts.flatMap TypeTree.labels ∧
      t.gaps = (if s.rule? = none then [label] else []) ++ ts.flatMap TypeTree.gaps := by
  cases s with
  | task =>
    cases h
    exact ⟨[], .nil, rfl, rfl⟩
  | carrier kind inner =>
    obtain ⟨a, ha, rfl⟩ := Option.map_eq_some_iff.mp h
    exact ⟨[a], .cons ha .nil, by simp [TypeTree.labels], by simp [TypeTree.gaps, rule?]⟩
  | primitive text =>
    cases h
    exact ⟨[], .nil, rfl, rfl⟩
  | list element =>
    obtain ⟨a, ha, rfl⟩ := Option.map_eq_some_iff.mp h
    exact ⟨[a], .cons ha .nil, by simp [TypeTree.labels], by simp [TypeTree.gaps, rule?]⟩
  | dictionary key value =>
    obtain ⟨k, hk, h⟩ := Option.bind_eq_some_iff.mp h
    obtain ⟨v, hv, rfl⟩ := Option.map_eq_some_iff.mp h
    exact ⟨[k, v], .cons hk (.cons hv .nil), by simp [TypeTree.labels],
      by simp [TypeTree.gaps, rule?]⟩
  | optional inner =>
    obtain ⟨a, ha, rfl⟩ := Option.map_eq_some_iff.mp h
    exact ⟨[a], .cons ha .nil, by simp [TypeTree.labels], by simp [TypeTree.gaps, rule?]⟩
  | data definition name arguments =>
    obtain ⟨ts, hts, rfl⟩ := Option.map_eq_some_iff.mp h
    exact ⟨ts, mapM_eq_some_iff.mp hts, by rw [TypeTree.labels, TypeTree.labelsAll_eq_flatMap],
      by simp [TypeTree.gaps, rule?, TypeTree.gapsAll_eq_flatMap]⟩
  | unclaimed =>
    cases h
    exact ⟨[], .nil, rfl, rfl⟩

/-- No built-in rule is in charge of the type. -/
def Label.isGap (g : TypeGraph) (w : WellKnown) (label : Label) : Bool :=
  Rule.find? g w Rule.builtin label.type == some none

section Trees

variable (hg : Consistent g) {room : Nat} {t : TypeTree}
include hg

theorem mappable_iff_gaps (ht : treeWithin g w room ty = some t) :
    Mappable g w ty ↔ t.gaps = [] := by
  induction room generalizing ty t with
  | zero => cases ht
  | succ room ih =>
    obtain ⟨below, n, d, s, hroom, _, _, hfits, htree⟩ := treeWithin_cases hg ht
    cases hroom
    obtain ⟨ts, hts, _, hgaps⟩ := Shape.labels_of_tree? htree
    have hall : (∀ a ∈ s.parts, Mappable g w a) ↔ ∀ u ∈ ts, u.gaps = [] := by
      constructor
      · intro h u hu
        obtain ⟨a, ha, hau⟩ := exists_of_mem_right hts hu
        exact (ih hau).mp (h a ha)
      · intro h a ha
        obtain ⟨u, hu, hau⟩ := exists_of_mem_left hts ha
        exact (ih hau).mpr (h u hu)
    rw [mappable_iff_parts hg hfits, hall, hgaps]
    by_cases hrule : s.rule? = none <;> simp [hrule]

/-- The gaps are the types of the tree that no rule is in charge of. -/
theorem filter_labels (ht : treeWithin g w room ty = some t) :
    t.labels.filter (Label.isGap g w) = t.gaps := by
  induction room generalizing ty t with
  | zero => cases ht
  | succ room ih =>
    obtain ⟨below, n, d, s, hroom, _, _, hfits, htree⟩ := treeWithin_cases hg ht
    cases hroom
    obtain ⟨ts, hts, hlabels, hgaps⟩ := Shape.labels_of_tree? htree
    have hall : (ts.flatMap TypeTree.labels).filter (Label.isGap g w) =
        ts.flatMap TypeTree.gaps := by
      rw [List.filter_flatMap]
      refine List.flatMap_congr fun u hu => ?_
      obtain ⟨a, _, hau⟩ := exists_of_mem_right hts hu
      exact ih hau
    have hroot : Label.isGap g w ⟨ty, n, d⟩ = decide (s.rule? = none) := by
      simp [Label.isGap, hfits.find?, Bool.beq_eq_decide_eq]
    rw [hlabels, hgaps, List.filter_cons, hroot, hall]
    by_cases hrule : s.rule? = none <;> simp [hrule]

private theorem display?_of_mem_labels (ht : treeWithin g w room ty = some t) {label : Label}
    (h : label ∈ t.labels) : g.display? label.type = some label.display := by
  induction room generalizing ty t with
  | zero => cases ht
  | succ room ih =>
    obtain ⟨below, n, d, s, hroom, _, hd, _, htree⟩ := treeWithin_cases hg ht
    cases hroom
    obtain ⟨ts, hts, hlabels, _⟩ := Shape.labels_of_tree? htree
    rw [hlabels, List.mem_cons, List.mem_flatMap] at h
    rcases h with rfl | ⟨u, hu, hlabel⟩
    · exact hd
    · obtain ⟨a, _, hau⟩ := exists_of_mem_right hts hu
      exact ih hau hlabel

end Trees

/-! ## Where readings end -/

namespace Reading

variable {α β : Type}

/-- The reading fails at the first of the types, and has a result if there is none. -/
def StopsAt (r : Reading α) : List Label → Prop
  | [] => ∃ a, r.result = .ok a
  | label :: _ => r.result = .error (.unsupported label.display)

theorem StopsAt.pure (a : α) : StopsAt (pure a) [] := ⟨a, rfl⟩

theorem StopsAt.bind {r : Reading α} {k : α → Reading β} {ls ls' : List Label}
    (hr : r.StopsAt ls) (hk : ∀ a, (k a).StopsAt ls') : (r >>= k).StopsAt (ls ++ ls') := by
  change (andThen r k).StopsAt _
  cases ls with
  | nil =>
    obtain ⟨a, ha⟩ := hr
    have hresult : (andThen r k).result = (k a).result := by rw [andThen, ha]
    have h := hk a
    unfold StopsAt at h ⊢
    rw [hresult]
    exact h
  | cons label rest =>
    have hfail : r.result = .error (.unsupported label.display) := hr
    change (andThen r k).result = _
    rw [andThen, hfail]

theorem StopsAt.map {r : Reading α} {ls : List Label} (f : α → β) (hr : r.StopsAt ls) :
    StopsAt (do return f (← r)) ls := by
  have h := hr.bind (k := fun a => Pure.pure (f a)) fun a => .pure (f a)
  rwa [List.append_nil] at h

theorem StopsAt.note {r : Reading α} {ls : List Label} (n : Note) (hr : r.StopsAt ls) :
    StopsAt (do note n; r) ls := by
  have hnote : (Reading.note n).StopsAt [] := ⟨(), rfl⟩
  exact hnote.bind fun _ => hr

theorem StopsAt.wrapped {r : Reading String} {ls : List Label} (wrapper : Wrapper)
    (hr : r.StopsAt ls) : (r.wrapped wrapper).StopsAt ls :=
  .note _ (hr.map _)

end Reading

namespace TypeTree

mutual

/-- Without fixed texts, a reading stops at the first gap of the tree. -/
theorem read_stopsAt (p : Position) (t : TypeTree) : (t.read [] p).StopsAt t.gaps := by
  cases t with
  | task label => exact .pure _
  | carrier label kind inner =>
    rw [read, gaps, Label.orElse_of_no_text rfl]
    have hinner := read_stopsAt .nested inner
    split_ifs with htask hp
    · cases hcarried : carried? [] inner with
      | none => exact hinner.map _
      | some r => exact (carried?_stopsAt inner hcarried).wrapped _
    · exact hinner.map _
    · exact hinner.wrapped _
    · exact hinner.wrapped _
  | primitive label text => exact .pure _
  | list label element => exact (read_stopsAt .nested element).map _
  | dictionary label key value =>
    exact (read_stopsAt .nested key).bind fun _ => (read_stopsAt .nested value).map _
  | optional label inner => exact (read_stopsAt .nested inner).map _
  | data label definition name arguments => exact .note _ ((readAll_stopsAt arguments).map _)
  | unclaimed label => rfl

/-- What a task of a stream goes on to has the gaps of the stream. -/
theorem carried?_stopsAt (t : TypeTree) {r : Reading String} (h : t.carried? [] = some r) :
    r.StopsAt t.gaps := by
  cases t with
  | carrier label kind element =>
    rw [carried?] at h
    split_ifs at h
    cases h
    exact read_stopsAt .nested element
  | _ => cases h

private theorem readAll_stopsAt (ts : List TypeTree) : (readAll [] ts).StopsAt (gapsAll ts) := by
  cases ts with
  | nil => exact .pure _
  | cons t ts => exact (read_stopsAt .nested t).bind fun _ => (readAll_stopsAt ts).map _

end

end TypeTree

private theorem not_bypasses_of_no_texts (p : Position) : ¬ Bypasses g w [] p ty := by
  rintro ⟨_, _, _, _, _, _, _, _, _, _, htext⟩
  exact htext rfl

/-- The built-in rules render exactly the mappable types, at every position. Of another type they
say, at every position, that the first type in its tree without a rule in charge is unsupported. -/
theorem builtin_domain (hg : g.Reachable) {names : WellKnownNames}
    (hw : WellKnown.resolve g names = .ok w) (hty : g.Issued ty) :
    ∃ t, tree? g w ty = some t ∧
      (∀ p, (∃ r, renderAt? g w Rule.builtin p ty = some (.ok r)) ↔ Mappable g w ty) ∧
      (¬ Mappable g w ty → ∃ label, t.labels.find? (Label.isGap g w) = some label ∧
        g.display? label.type = some label.display ∧
        ∀ p, renderAt? g w Rule.builtin p ty = some (.error (.unsupported label.display))) := by
  have hconsistent := hg.consistent
  have htasks : ∀ {ty}, w.isTask ty = true → ∃ head, g.form? ty = some (.declared head) :=
    fun h => WellKnown.resolve_isTask hg.coherent hw h
  obtain ⟨t, ht⟩ := exists_tree? (w := w) hconsistent hty
  have hrender : ∀ p, renderAt? g w Rule.builtin p ty = some (t.read [] p).rendered :=
    fun p => renderAt?_of_tree hconsistent htasks ht (not_bypasses_of_no_texts p)
  have hstops := fun p => t.read_stopsAt p
  have hmappable := mappable_iff_gaps hconsistent ht
  have hfilter := filter_labels hconsistent ht
  refine ⟨t, ht, ?_⟩
  cases hgaps : t.gaps with
  | nil =>
    have hm : Mappable g w ty := hmappable.mpr hgaps
    refine ⟨fun p => ⟨fun _ => hm, fun _ => ?_⟩, fun hnot => absurd hm hnot⟩
    rw [hgaps] at hstops
    obtain ⟨text, htext⟩ := hstops p
    exact ⟨_, by rw [hrender, Reading.rendered, htext]; rfl⟩
  | cons label rest =>
    have hnot : ¬ Mappable g w ty := fun hm => by cases hgaps.symm.trans (hmappable.mp hm)
    have herror : ∀ p,
        renderAt? g w Rule.builtin p ty = some (.error (.unsupported label.display)) := by
      intro p
      have hfail := hstops p
      rw [hgaps] at hfail
      rw [hrender, Reading.rendered, show (t.read [] p).result = _ from hfail]
      rfl
    have hfind : t.labels.find? (Label.isGap g w) = some label := by
      rw [← List.head?_filter, hfilter, hgaps, List.head?_cons]
    refine ⟨fun p => ⟨fun hok => ?_, fun hm => absurd hm hnot⟩, fun _ => ⟨label, hfind, ?_, herror⟩⟩
    · obtain ⟨r, hr⟩ := hok
      cases (herror p).symm.trans hr
    · exact display?_of_mem_labels hconsistent ht (List.mem_of_find?_eq_some hfind)

/-- A class without a marker, a data type with one parameter, lists and dictionaries. -/
def stockRuntime : TypeGraph :=
  TypeGraph.declareAll
    [{ head := { kind := .classType, nameSpace := "App", name := "Handle" } },
     { head := { kind := .classType, nameSpace := "App", name := "Box", arity := 1 }
       attributes := [⟨2⟩] },
     { head :=
        { kind := .classType, nameSpace := "System.Collections.Generic", name := "List"
          arity := 1 } },
     { head :=
        { kind := .classType, nameSpace := "System.Collections.Generic", name := "Dictionary"
          arity := 2 } }] feedRuntime

/-- Boxes and lists of numbers, and lists of handles. -/
def stockParts : TypeGraph :=
  ((stockRuntime.withConstruction ⟨7⟩ [⟨3⟩]).withConstruction ⟨8⟩ [⟨3⟩]).withConstruction ⟨8⟩ [⟨6⟩]

/-- Dictionaries from boxes to lists of numbers and to lists of handles. -/
def stockTypes : TypeGraph :=
  (stockParts.withConstruction ⟨9⟩ [⟨10⟩, ⟨11⟩]).withConstruction ⟨9⟩ [⟨10⟩, ⟨12⟩]

theorem stockTypes_reachable : stockTypes.Reachable := by
  have h₀ : feedRuntime.Reachable := .declareAll .empty (by decide +kernel)
  have h₁ : stockRuntime.Reachable := .declareAll h₀ (by decide +kernel)
  have h₂ := h₁.withConstruction ⟨7⟩ [⟨3⟩] (by decide +kernel) (by decide +kernel) rfl
  have h₃ := h₂.withConstruction ⟨8⟩ [⟨3⟩] (by decide +kernel) (by decide +kernel) rfl
  have h₄ : stockParts.Reachable :=
    h₃.withConstruction ⟨8⟩ [⟨6⟩] (by decide +kernel) (by decide +kernel) rfl
  have h₅ := h₄.withConstruction ⟨9⟩ [⟨10⟩, ⟨11⟩] (by decide +kernel) (by decide +kernel) rfl
  exact h₅.withConstruction ⟨9⟩ [⟨10⟩, ⟨12⟩] (by decide +kernel) (by decide +kernel) rfl

/-- The dictionary of numbers is rendered, and that of handles fails at the handle. -/
theorem stockTypes_domain :
    stockTypes.Reachable ∧ stockTypes.Issued ⟨13⟩ ∧ stockTypes.Issued ⟨14⟩ ∧
      ∃ w, WellKnown.resolve stockTypes {} = .ok w ∧
        Mappable stockTypes w ⟨13⟩ ∧
        (∀ p, ∃ r, renderAt? stockTypes w Rule.builtin p ⟨13⟩ = some (.ok r)) ∧
        ¬ Mappable stockTypes w ⟨14⟩ ∧
        ∀ p, renderAt? stockTypes w Rule.builtin p ⟨14⟩ =
          some (.error (.unsupported "App.Handle")) := by
  have hissued : stockTypes.Issued ⟨13⟩ := by decide +kernel
  have hissued' : stockTypes.Issued ⟨14⟩ := by decide +kernel
  obtain ⟨w, hw⟩ : ∃ w, WellKnown.resolve stockTypes {} = .ok w := ⟨_, rfl⟩
  obtain ⟨_, _, hiff, _⟩ := builtin_domain stockTypes_reachable hw hissued
  obtain ⟨t, ht, hiff', herror⟩ := builtin_domain stockTypes_reachable hw hissued'
  have hnumber : Mappable stockTypes w ⟨3⟩ := by
    have hname : stockTypes.metadataName? ⟨3⟩ = some "System.Int32" := by decide +kernel
    exact .primitive hname rfl
  have hbox : Mappable stockTypes w ⟨10⟩ := by
    have hmarked : stockTypes.hasAttribute? ⟨10⟩ w.dataTypeMarker = some true := by
      cases hw
      decide +kernel
    have has : stockTypes.arguments? ⟨10⟩ = some [⟨3⟩] := by decide +kernel
    exact .dataType (by decide +kernel) hmarked has (by simpa using hnumber)
  have hlist : Mappable stockTypes w ⟨11⟩ :=
    .sequence (n := "System.Collections.Generic.List`1") (by decide +kernel) (by decide +kernel)
      (by decide +kernel) hnumber
  have hdictionary : Mappable stockTypes w ⟨13⟩ :=
    .dictionary (n := "System.Collections.Generic.Dictionary`2") (by decide +kernel)
      (by decide +kernel) (by decide +kernel) hbox hlist
  have hnot : ¬ Mappable stockTypes w ⟨14⟩ := by
    rw [← hiff' .nested]
    rintro ⟨r, hr⟩
    cases hw
    cases hr
  obtain ⟨label, hfind, _, hfails⟩ := herror hnot
  refine ⟨stockTypes_reachable, hissued, hissued', w, hw, hdictionary,
    fun p => (hiff p).mpr hdictionary, hnot, ?_⟩
  have hlabel : label.display = "App.Handle" := by
    cases hw
    cases ht
    cases hfind
    rfl
  rw [← hlabel]
  exact hfails

end HubBindings
