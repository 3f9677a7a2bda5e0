import HubBindings.Proofs.TypeGraph.Names

/-!
What every graph keeps true of itself, whatever calls were made on it.

* `Layered`: types are made up of earlier types, and the tables of constructed types and arrays hold
  exactly these types, each once;
* `Listed`: the list of declarations holds exactly the declared types in ascending order, and a name
  leads to the first of them that has it;
* `Attached`: members are issued, and every method belongs to one type, at one place.

Each is kept by every change (`Change.consistent`), so each holds of every reachable graph.
-/

namespace HubBindings

/-- The types that a form is made up of. -/
def TypeForm.parts : TypeForm → List TypeId
  | .declared _ => []
  | .constructed d as => d :: as
  | .array e => [e]

namespace TypeGraph

variable {g g' : TypeGraph}

/-! ## Symbols after a change -/

private theorem eq_nextType_iff {ty : TypeId} : ty = g.nextType ↔ ty.index = g.types.size := by
  cases ty
  simp [nextType]

theorem Issued.ne_nextType {ty : TypeId} (h : g.Issued ty) : ty ≠ g.nextType := by
  rintro rfl
  exact Nat.lt_irrefl _ h

theorem issued_iff_symbol? {ty : TypeId} : g.Issued ty ↔ ∃ s, g.symbol? ty = some s := by
  rw [issued_iff_form?, form?]
  simp only [Option.map_eq_some_iff]
  constructor
  · rintro ⟨_, s, hs, _⟩
    exact ⟨s, hs⟩
  · rintro ⟨s, hs⟩
    exact ⟨_, s, hs, rfl⟩

theorem symbol?_push {s : TypeSymbol} (h : g'.types = g.types.push s) (ty : TypeId) :
    g'.symbol? ty = if ty = g.nextType then some s else g.symbol? ty := by
  simp only [symbol?, h, Array.getElem?_push, eq_nextType_iff]

theorem symbol?_push_old {s t : TypeSymbol} (htypes : g'.types = g.types.push s) {ty : TypeId}
    (ht : g.symbol? ty = some t) : g'.symbol? ty = some t := by
  rw [symbol?_push htypes, if_neg (issued_iff_symbol?.mpr ⟨t, ht⟩).ne_nextType, ht]

theorem Interning.symbol?_kept (h : Interning g g') {ty : TypeId} {s : TypeSymbol}
    (hs : g.symbol? ty = some s) : g'.symbol? ty = some s := by
  cases h with
  | construct _ _ _ _ _ => exact symbol?_push_old rfl hs
  | array _ _ => exact symbol?_push_old rfl hs

theorem Internings.symbol?_kept (h : Internings g g') {ty : TypeId} {s : TypeSymbol}
    (hs : g.symbol? ty = some s) : g'.symbol? ty = some s := by
  induction h with
  | refl => exact hs
  | tail _ hi ih => exact hi.symbol?_kept ih

/-- A call that changes a symbol changes one symbol, and no method. -/
theorem modify?_eq_some {ty : TypeId} {change : TypeSymbol → TypeSymbol}
    (h : g.modify? ty change = some g') :
    g'.methods = g.methods ∧
      ∀ x, g'.symbol? x = if x = ty then (g.symbol? x).map change else g.symbol? x := by
  unfold modify? at h
  split at h
  · cases h
    refine ⟨rfl, fun x => ?_⟩
    have hiff : ty.index = x.index ↔ x = ty := by
      cases ty
      cases x
      simp [eq_comm]
    simp only [symbol?, Array.getElem?_modify, hiff]
  · cases h

theorem exists_modify? {ty : TypeId} (hty : g.Issued ty) (change : TypeSymbol → TypeSymbol) :
    ∃ g', g.modify? ty change = some g' := ⟨_, if_pos hty⟩

theorem exists_addMethod? {ty : TypeId} (hty : g.Issued ty) (m : Method) :
    ∃ added, g.addMethod? ty m = some added := by
  obtain ⟨g', h⟩ := exists_modify? hty _
  exact ⟨_, Option.map_eq_some_iff.mpr ⟨g', h, rfl⟩⟩

theorem Change.issued (h : Change g g') {ty : TypeId} (hty : g.Issued ty) : g'.Issued ty :=
  Changes.issued (.single h) hty

/-- A graph in which every form is kept keeps the heads of its types. -/
theorem head?_kept (hforms : ∀ {ty f}, g.form? ty = some f → g'.form? ty = some f) {ty : TypeId}
    {h : TypeHead} (hh : g.head? ty = some h) : g'.head? ty = some h := by
  unfold head? at hh ⊢
  cases hs : g.symbol? ty with
  | none => rw [hs] at hh; cases hh
  | some s =>
    obtain ⟨s', hs', hform⟩ :=
      symbol?_of_form? (hforms (show g.form? ty = some s.form by simp [form?, hs]))
    rw [hs] at hh
    rw [hs']
    simp only [hform] at hh ⊢
    cases hf : s.form with
    | declared h' => simpa only [hf] using hh
    | array e => simpa only [hf] using hh
    | constructed d as =>
      simp only [hf] at hh ⊢
      obtain ⟨origin, ho, e⟩ := Option.map_eq_some_iff.mp hh
      obtain ⟨o', ho', hof⟩ :=
        symbol?_of_form? (hforms (show g.form? d = some origin.form by simp [form?, ho]))
      rw [ho', Option.map_some, hof, e]

/-! ## Types made up of earlier types -/

/-- Types are made up of earlier types, and the tables hold the constructed types and arrays. -/
structure Layered (g : TypeGraph) : Prop where
  descends : ∀ {ty f}, g.form? ty = some f → ∀ p ∈ f.parts, p.index < ty.index
  plain : ∀ {ty d as}, g.form? ty = some (.constructed d as) →
    ∀ d' as', g.form? d ≠ some (.constructed d' as')
  arity : ∀ {ty d as}, g.form? ty = some (.constructed d as) → g.arity? d = some as.length
  constructions : ∀ {d as ty},
    g.constructions.lookup (d, as) = some ty ↔ g.form? ty = some (.constructed d as)
  arrays : ∀ {e ty}, g.arrays.lookup e = some ty ↔ g.form? ty = some (.array e)
  constructionKeys : (g.constructions.map (·.1)).Nodup
  arrayKeys : (g.arrays.map (·.1)).Nodup

theorem Layered.empty : Layered {} where
  descends h := by cases h
  plain h := by cases h
  arity h := by cases h
  constructions := ⟨fun h => (by cases h), fun h => (by cases h)⟩
  arrays := ⟨fun h => (by cases h), fun h => (by cases h)⟩
  constructionKeys := .nil
  arrayKeys := .nil

theorem AddsMember.layered (h : AddsMember g g') (hg : Layered g) : Layered g' := by
  have hforms : ∀ {ty f}, g'.form? ty = some f → g.form? ty = some f := by
    intro ty f hf
    rw [← h.forms, hf]
  have hforms' : ∀ {ty f}, g.form? ty = some f → g'.form? ty = some f := by
    intro ty f hf
    rw [h.forms, hf]
  refine ⟨fun hf => hg.descends (hforms hf), ?_, ?_, ?_, ?_, ?_, ?_⟩
  · intro ty d as hf d' as' hd
    exact hg.plain (hforms hf) d' as' (hforms hd)
  · intro ty d as hf
    obtain ⟨head, hhead, e⟩ := Option.map_eq_some_iff.mp (hg.arity (hforms hf))
    rw [arity?, head?_kept hforms' hhead, Option.map_some, e]
  · intro d as ty
    rw [h.constructions, h.forms]
    exact hg.constructions
  · intro e ty
    rw [h.arrays, h.forms]
    exact hg.arrays
  · rw [h.constructions]
    exact hg.constructionKeys
  · rw [h.arrays]
    exact hg.arrayKeys

/-- A new type keeps the layers if it is made up of issued types and the tables learn of it. -/
theorem Layered.push (hg : Layered g) {s : TypeSymbol} (htypes : g'.types = g.types.push s)
    (hparts : ∀ p ∈ s.form.parts, g.Issued p)
    (hplain : ∀ d as, s.form = .constructed d as →
      (∀ d' as', g.form? d ≠ some (.constructed d' as')) ∧ g.arity? d = some as.length)
    (hcon : ∀ key ty, g'.constructions.lookup key = some ty ↔
      g.constructions.lookup key = some ty ∨
        s.form = .constructed key.1 key.2 ∧ ty = g.nextType)
    (harr : ∀ e ty, g'.arrays.lookup e = some ty ↔
      g.arrays.lookup e = some ty ∨ s.form = .array e ∧ ty = g.nextType)
    (hconKeys : (g'.constructions.map (·.1)).Nodup) (harrKeys : (g'.arrays.map (·.1)).Nodup) :
    Layered g' := by
  have kept : ∀ {ty f}, g.form? ty = some f → g'.form? ty = some f := by
    intro ty f hf
    rw [form?_push htypes, if_neg (issued_iff_form?.mpr ⟨f, hf⟩).ne_nextType, hf]
  have cases_form : ∀ {ty f}, g'.form? ty = some f →
      g.form? ty = some f ∨ f = s.form ∧ ty = g.nextType := by
    intro ty f hf
    rw [form?_push htypes] at hf
    split at hf
    · exact .inr ⟨(Option.some.inj hf).symm, ‹_›⟩
    · exact .inl hf
  -- what a constructed type is made of is older than the type, so it had its form before
  have definition : ∀ {ty d as}, g'.form? ty = some (.constructed d as) →
      (∀ d' as', g.form? d ≠ some (.constructed d' as')) ∧ g.arity? d = some as.length ∧
        g.Issued d := by
    intro ty d as hf
    rcases cases_form hf with hf | ⟨e, _⟩
    · have hlt := hg.descends hf d List.mem_cons_self
      have hty : g.Issued ty := issued_iff_form?.mpr ⟨_, hf⟩
      exact ⟨hg.plain hf, hg.arity hf, Nat.lt_trans hlt hty⟩
    · obtain ⟨hp, ha⟩ := hplain d as e.symm
      exact ⟨hp, ha, hparts d (by rw [← e]; exact List.mem_cons_self)⟩
  refine ⟨?_, ?_, ?_, ?_, ?_, hconKeys, harrKeys⟩
  · intro ty f hf p hp
    rcases cases_form hf with hf | ⟨rfl, rfl⟩
    · exact hg.descends hf p hp
    · exact hparts p hp
  · intro ty d as hf d' as' hd
    obtain ⟨hp, _, hissued⟩ := definition hf
    rw [form?_push htypes, if_neg hissued.ne_nextType] at hd
    exact hp d' as' hd
  · intro ty d as hf
    obtain ⟨head, hhead, e⟩ := Option.map_eq_some_iff.mp (definition hf).2.1
    rw [arity?, head?_kept kept hhead, Option.map_some, e]
  · intro d as ty
    rw [hcon, hg.constructions]
    constructor
    · rintro (hf | ⟨e, rfl⟩)
      · exact kept hf
      · rw [form?_push htypes, if_pos rfl, e]
    · intro hf
      exact (cases_form hf).imp_right fun h => ⟨h.1.symm, h.2⟩
  · intro e ty
    rw [harr, hg.arrays]
    constructor
    · rintro (hf | ⟨hs, rfl⟩)
      · exact kept hf
      · rw [form?_push htypes, if_pos rfl, hs]
    · intro hf
      exact (cases_form hf).imp_right fun h => ⟨h.1.symm, h.2⟩

/-- A table with one more entry, for a key that had none. -/
theorem lookup_append_singleton_iff {κ ν : Type} [BEq κ] [LawfulBEq κ] {table : List (κ × ν)}
    {key k : κ} {v x : ν} (hnone : table.lookup k = none) :
    (table ++ [(k, v)]).lookup key = some x ↔ table.lookup key = some x ∨ key = k ∧ x = v := by
  constructor
  · exact lookup_append_singleton
  · rintro (h | ⟨rfl, rfl⟩)
    · rw [List.lookup_append, h, Option.some_or]
    · rw [List.lookup_append, hnone, Option.none_or, List.lookup_cons_self]

private theorem nodup_keys_append_singleton {κ ν : Type} [BEq κ] [LawfulBEq κ]
    {table : List (κ × ν)}
    {k : κ} {v : ν} (h : (table.map (·.1)).Nodup) (hnone : table.lookup k = none) :
    ((table ++ [(k, v)]).map (·.1)).Nodup := by
  rw [List.map_append, List.nodup_append]
  refine ⟨h, by simp, ?_⟩
  intro a ha b hb e
  obtain ⟨entry, hentry, rfl⟩ := List.mem_map.mp ha
  cases List.mem_singleton.mp hb
  have hne := List.lookup_eq_none_iff.mp hnone entry hentry
  simp [e] at hne

/-- The definition of a type is no constructed type. -/
theorem Layered.definition?_plain (hg : Layered g) {ty d : TypeId} (h : g.definition? ty = some d) :
    g.Issued d ∧ ∀ d' as', g.form? d ≠ some (.constructed d' as') := by
  rw [definition?_eq_form?] at h
  obtain ⟨f, hf, e⟩ := Option.map_eq_some_iff.mp h
  have hty : g.Issued ty := issued_iff_form?.mpr ⟨f, hf⟩
  cases f with
  | declared head =>
    cases e
    refine ⟨hty, fun d' as' hd => ?_⟩
    cases hf.symm.trans hd
  | array el =>
    cases e
    refine ⟨hty, fun d' as' hd => ?_⟩
    cases hf.symm.trans hd
  | constructed d' as =>
    cases e
    exact ⟨Nat.lt_trans (hg.descends hf d' List.mem_cons_self) hty, hg.plain hf⟩

theorem Change.layered (h : Change g g') (hg : Layered g) : Layered g' := by
  cases h with
  | declare d _ =>
    refine hg.push rfl (by simp [TypeForm.parts]) (by simp) (fun _ _ => ?_) (fun _ _ => ?_)
      hg.constructionKeys hg.arrayKeys
    · simp [TypeGraph.declare]
    · simp [TypeGraph.declare]
  | addAttribute _ _ h => exact (modify?_addsMember (by intro s; rfl) h).layered hg
  | addBase _ _ h => exact (modify?_addsMember (by intro s; rfl) h).layered hg
  | addMethod _ _ h => exact (addMethod?_addsMember h).layered hg
  | @construct type d as _ hd ha has hnone =>
    obtain ⟨hissued, hplain⟩ := hg.definition?_plain hd
    refine hg.push rfl ?_ ?_ (fun key ty => ?_) (fun _ _ => by simp [TypeGraph.withConstruction])
      (nodup_keys_append_singleton hg.constructionKeys hnone) hg.arrayKeys
    · intro p hp
      rcases List.mem_cons.mp hp with rfl | hp
      · exact hissued
      · exact has p hp
    · intro d' as' e
      cases e
      exact ⟨hplain, ha⟩
    · rw [TypeGraph.withConstruction, lookup_append_singleton_iff hnone]
      simp [Prod.ext_iff, eq_comm]
  | @array e he hnone =>
    refine hg.push rfl ?_ (by simp) (fun _ _ => by simp [TypeGraph.withArray]) (fun e' ty => ?_)
      hg.constructionKeys (nodup_keys_append_singleton hg.arrayKeys hnone)
    · intro p hp
      cases List.mem_singleton.mp hp
      exact he
    · rw [TypeGraph.withArray, lookup_append_singleton_iff hnone]
      simp [eq_comm]

/-! ## Declarations -/

/-- The list of declarations holds the declared types in ascending order, and a name leads to the
first of them that has it. -/
structure Listed (g : TypeGraph) : Prop where
  ascending : g.declared.Pairwise fun a b => a.index < b.index
  declared : ∀ {ty}, ty ∈ g.declared ↔ ∃ h, g.form? ty = some (.declared h)
  lookup : ∀ name, g.lookup name = (g.declaredAs name).head?
  names : (g.definitions.map (·.1)).Nodup

theorem Listed.empty : Listed {} where
  ascending := .nil
  declared := ⟨fun h => (by cases h), fun ⟨_, h⟩ => (by cases h)⟩
  lookup _ := rfl
  names := .nil

theorem Listed.issued (hg : Listed g) {ty : TypeId} (h : ty ∈ g.declared) : g.Issued ty := by
  obtain ⟨head, hf⟩ := hg.declared.mp h
  exact issued_iff_form?.mpr ⟨_, hf⟩

/-- Declared types keep their metadata names as long as they keep their forms. -/
theorem Listed.filter_metadataName? (hg : Listed g)
    (hforms : ∀ {ty f}, g.form? ty = some f → g'.form? ty = some f) (name : String) :
    g.declared.filter (fun ty => g'.metadataName? ty == some name) = g.declaredAs name := by
  refine List.filter_congr fun ty hty => ?_
  obtain ⟨head, hf⟩ := hg.declared.mp hty
  rw [metadataName?_of_declared hf, metadataName?_of_declared (hforms hf)]

/-- A change that declares nothing keeps the list. -/
theorem Listed.of_forms (hg : Listed g)
    (hforms : ∀ {ty f}, g.form? ty = some f → g'.form? ty = some f)
    (hnew : ∀ {ty h}, g'.form? ty = some (.declared h) → g.form? ty = some (.declared h))
    (hdec : g'.declared = g.declared) (hdef : g'.definitions = g.definitions) : Listed g' where
  ascending := by rw [hdec]; exact hg.ascending
  declared := by
    intro ty
    rw [hdec, hg.declared]
    exact ⟨Exists.imp fun _ hf => hforms hf, Exists.imp fun _ hf => hnew hf⟩
  lookup name := by
    rw [TypeGraph.declaredAs, hdec, hg.filter_metadataName? hforms, ← hg.lookup,
      TypeGraph.lookup, hdef, TypeGraph.lookup]
  names := by rw [hdef]; exact hg.names

theorem AddsMember.listed (h : AddsMember g g') (hg : Listed g) : Listed g' :=
  hg.of_forms (fun hf => (h.forms _).trans hf) (fun hf => (h.forms _).symm.trans hf) h.declared
    h.definitions

/-- A declaration comes last of those under its name. -/
theorem declare_declaredAs (hg : Listed g) {d : Declaration} (hd : g.IssuedDeclaration d)
    (name : String) : (g.declare d).2.declaredAs name =
      g.declaredAs name ++ if d.head.metadataName = name then [g.nextType] else [] := by
  change (g.declared ++ [g.nextType]).filter _ = _
  rw [List.filter_append, hg.filter_metadataName? (Change.declare d hd).form?_kept]
  by_cases hn : d.head.metadataName = name
  · simp [metadataName?_of_declared (form?_declare g d), hn]
  · simp [metadataName?_of_declared (form?_declare g d), hn]

theorem declare_listed (hg : Listed g) (d : Declaration) (hd : g.IssuedDeclaration d) :
    Listed (g.declare d).2 := by
  refine ⟨?_, ?_, ?_, ?_⟩
  · refine List.pairwise_append.mpr ⟨hg.ascending, List.pairwise_singleton _ _, ?_⟩
    intro a ha b hb
    cases List.mem_singleton.mp hb
    exact hg.issued ha
  · intro ty
    have hmem : ty ∈ (g.declare d).2.declared ↔ ty ∈ g.declared ∨ ty = g.nextType := by
      simp [TypeGraph.declare]
    have hform := form?_push (show (g.declare d).2.types = g.types.push _ from rfl) ty
    rw [hmem, hg.declared, hform]
    by_cases hty : ty = g.nextType
    · simp [hty]
    · simp [hty]
  · intro name
    rw [declare_declaredAs hg hd, List.head?_append, ← hg.lookup]
    change (if (g.lookup d.head.metadataName).isSome then g.definitions
      else g.definitions ++ [(d.head.metadataName, g.nextType)]).lookup name = _
    cases hl : g.lookup d.head.metadataName with
    | some first =>
      rw [if_pos Option.isSome_some]
      change g.lookup name = _
      by_cases hn : d.head.metadataName = name
      · rw [← hn, hl]
        rfl
      · simp [hn]
    | none =>
      rw [if_neg (by simp), List.lookup_append]
      change (g.lookup name).or _ = _
      by_cases hn : d.head.metadataName = name
      · simp [hn]
      · have hn' : (name == d.head.metadataName) = false := by simpa using fun e => hn e.symm
        simp [hn, List.lookup_cons, hn']
  · change ((if (g.lookup d.head.metadataName).isSome then g.definitions
      else g.definitions ++ [(d.head.metadataName, g.nextType)]).map (·.1)).Nodup
    split
    · exact hg.names
    · rename_i hnone
      exact nodup_keys_append_singleton hg.names (Option.not_isSome_iff_eq_none.mp hnone)

theorem Change.listed (h : Change g g') (hg : Listed g) : Listed g' := by
  have kept : ∀ {ty f}, g.form? ty = some f → g'.form? ty = some f := h.form?_kept
  cases h with
  | declare d hd => exact declare_listed hg d hd
  | addAttribute _ _ h => exact (modify?_addsMember (by intro s; rfl) h).listed hg
  | addBase _ _ h => exact (modify?_addsMember (by intro s; rfl) h).listed hg
  | addMethod _ _ h => exact (addMethod?_addsMember h).listed hg
  | construct _ _ _ _ _ =>
    refine hg.of_forms kept (fun hf => ?_) rfl rfl
    rw [form?_push (g := g) rfl] at hf
    split at hf
    · cases hf
    · exact hf
  | array _ _ =>
    refine hg.of_forms kept (fun hf => ?_) rfl rfl
    rw [form?_push (g := g) rfl] at hf
    split at hf
    · cases hf
    · exact hf

/-! ## Members -/

/-- The graph has issued the address of a method. -/
def HasMethod (g : TypeGraph) (m : MethodId) : Prop := m.index < g.methods.size

instance (g : TypeGraph) (m : MethodId) : Decidable (g.HasMethod m) :=
  inferInstanceAs (Decidable (m.index < g.methods.size))

theorem hasMethod_iff {m : MethodId} : g.HasMethod m ↔ ∃ x, g.method? m = some x := by
  simp [HasMethod, method?, Array.getElem?_eq_some_iff]

theorem Change.method?_kept (h : Change g g') {id : MethodId} {x : Method}
    (hx : g.method? id = some x) : g'.method? id = some x := by
  have hlt : id.index < g.methods.size := hasMethod_iff.mpr ⟨x, hx⟩
  cases h with
  | declare d _ =>
    change (g.methods ++ d.methods.toArray)[id.index]? = some x
    rw [Array.getElem?_append_left hlt]
    exact hx
  | addAttribute _ _ h => rwa [method?, (modify?_eq_some h).1]
  | addBase _ _ h => rwa [method?, (modify?_eq_some h).1]
  | @addMethod _ m _ _ _ _ h =>
    obtain ⟨_, _, e⟩ := Option.map_eq_some_iff.mp h
    cases e
    change (g.methods.push m)[id.index]? = some x
    rw [Array.getElem?_push, if_neg (Nat.ne_of_lt hlt)]
    exact hx
  | construct _ _ _ _ _ => exact hx
  | array _ _ => exact hx

theorem Changes.method?_kept (h : Changes g g') {id : MethodId} {x : Method}
    (hx : g.method? id = some x) : g'.method? id = some x := by
  induction h with
  | refl => exact hx
  | tail _ hc ih => exact hc.method?_kept ih

/-- Members are issued, and every method belongs to one type, at one place. -/
structure Attached (g : TypeGraph) : Prop where
  attributes : ∀ {ty s}, g.symbol? ty = some s → ∀ a ∈ s.attributes, g.Issued a
  bases : ∀ {ty s}, g.symbol? ty = some s → ∀ b ∈ s.bases, g.Issued b
  methods : ∀ {ty s}, g.symbol? ty = some s → ∀ m ∈ s.methods, g.HasMethod m
  signatures : ∀ {m x}, g.method? m = some x → g.IssuedMethod x
  places : ∀ {ty s}, g.symbol? ty = some s → s.methods.Pairwise fun a b => a.index < b.index
  owned : ∀ {m}, g.HasMethod m → ∃ ty s, g.symbol? ty = some s ∧ m ∈ s.methods
  apart : ∀ {ty ty' s s' m}, g.symbol? ty = some s → g.symbol? ty' = some s' →
    m ∈ s.methods → m ∈ s'.methods → ty = ty'

theorem Attached.empty : Attached {} where
  attributes h := by cases h
  bases h := by cases h
  methods h := by cases h
  signatures h := by cases h
  places h := by cases h
  owned h := by cases h
  apart h := by cases h

/-- A method that is not there yet belongs to no type. -/
theorem Attached.not_mem (hg : Attached g) {ty : TypeId} {s : TypeSymbol} {m : MethodId}
    (hs : g.symbol? ty = some s) (hm : g.methods.size ≤ m.index) : m ∉ s.methods := fun hmem =>
  Nat.lt_irrefl _ (Nat.lt_of_lt_of_le (hg.methods hs m hmem) hm)

theorem IssuedMethod.mono (hissued : ∀ {ty}, g.Issued ty → g'.Issued ty) {x : Method}
    (h : g.IssuedMethod x) : g'.IssuedMethod x :=
  ⟨hissued h.1, fun p hp => hissued (h.2 p hp)⟩

/-- A new type brings its members along: issued attributes and bases, and the methods that the graph
gets at the same time. -/
theorem Attached.push (hg : Attached g) {s : TypeSymbol} (ms : List Method)
    (htypes : g'.types = g.types.push s) (hmethods : g'.methods = g.methods ++ ms.toArray)
    (hattributes : ∀ a ∈ s.attributes, g.Issued a) (hbases : ∀ b ∈ s.bases, g.Issued b)
    (hms : ∀ x ∈ ms, g.IssuedMethod x)
    (hown : s.methods = (List.range ms.length).map fun i => ⟨g.methods.size + i⟩) :
    Attached g' := by
  have issued : ∀ {ty}, g.Issued ty → g'.Issued ty := by
    intro ty hty
    have : g'.types.size = g.types.size + 1 := by simp [htypes]
    simp only [Issued] at hty ⊢
    omega
  have hsize : g'.methods.size = g.methods.size + ms.length := by simp [hmethods]
  have hasMethod : ∀ {m}, g.HasMethod m → g'.HasMethod m := by
    intro m hm
    simp only [HasMethod] at hm ⊢
    omega
  have mem_new : ∀ m, m ∈ s.methods ↔
      g.methods.size ≤ m.index ∧ m.index < g.methods.size + ms.length := by
    intro m
    rw [hown, List.mem_map]
    constructor
    · rintro ⟨i, hi, rfl⟩
      have := List.mem_range.mp hi
      simp only
      omega
    · rintro ⟨hle, hlt⟩
      exact ⟨m.index - g.methods.size, List.mem_range.mpr (by omega),
        congrArg MethodId.mk (by omega)⟩
  have cases_symbol : ∀ {ty t}, g'.symbol? ty = some t →
      g.symbol? ty = some t ∨ t = s ∧ ty = g.nextType := by
    intro ty t ht
    rw [symbol?_push htypes] at ht
    split at ht
    · exact .inr ⟨(Option.some.inj ht).symm, ‹_›⟩
    · exact .inl ht
  refine ⟨?_, ?_, ?_, ?_, ?_, ?_, ?_⟩
  · intro ty t ht a ha
    rcases cases_symbol ht with ht | ⟨rfl, _⟩
    · exact issued (hg.attributes ht a ha)
    · exact issued (hattributes a ha)
  · intro ty t ht b hb
    rcases cases_symbol ht with ht | ⟨rfl, _⟩
    · exact issued (hg.bases ht b hb)
    · exact issued (hbases b hb)
  · intro ty t ht m hm
    rcases cases_symbol ht with ht | ⟨rfl, _⟩
    · exact hasMethod (hg.methods ht m hm)
    · have := ((mem_new m).mp hm).2
      simp only [HasMethod]
      omega
  · intro m x hx
    simp only [method?, hmethods, Array.getElem?_append] at hx
    split at hx
    · exact (hg.signatures hx).mono issued
    · exact (hms x (by simpa using Array.mem_of_getElem? hx)).mono issued
  · intro ty t ht
    rcases cases_symbol ht with ht | ⟨rfl, _⟩
    · exact hg.places ht
    · rw [hown, List.pairwise_map]
      exact List.pairwise_lt_range.imp fun hlt => by simpa using hlt
  · intro m hm
    by_cases hold : g.HasMethod m
    · obtain ⟨ty, t, ht, hmem⟩ := hg.owned hold
      exact ⟨ty, t, symbol?_push_old htypes ht, hmem⟩
    · refine ⟨g.nextType, s, by rw [symbol?_push htypes, if_pos rfl], (mem_new m).mpr ?_⟩
      simp only [HasMethod] at hold hm
      omega
  · intro ty ty' t t' m ht ht' hm hm'
    rcases cases_symbol ht with ht | ⟨rfl, rfl⟩ <;> rcases cases_symbol ht' with ht' | ⟨rfl, rfl⟩
    · exact hg.apart ht ht' hm hm'
    · exact absurd hm (hg.not_mem ht ((mem_new m).mp hm').1)
    · exact absurd hm' (hg.not_mem ht' ((mem_new m).mp hm).1)
    · rfl

/-- An issued attribute or base is added. -/
theorem Attached.modify (hg : Attached g) {ty : TypeId} {change : TypeSymbol → TypeSymbol}
    (h : g.modify? ty change = some g') (hissued : ∀ {x}, g.Issued x → g'.Issued x)
    (hmethods : ∀ s, (change s).methods = s.methods)
    (hattributes : ∀ s, ∀ a ∈ (change s).attributes, a ∈ s.attributes ∨ g.Issued a)
    (hbases : ∀ s, ∀ b ∈ (change s).bases, b ∈ s.bases ∨ g.Issued b) : Attached g' := by
  obtain ⟨harray, hsymbol⟩ := modify?_eq_some h
  have cases_symbol : ∀ {x t'}, g'.symbol? x = some t' →
      ∃ t, g.symbol? x = some t ∧ (t' = t ∨ t' = change t) := by
    intro x t' ht
    rw [hsymbol] at ht
    split at ht
    · obtain ⟨t, hs, rfl⟩ := Option.map_eq_some_iff.mp ht
      exact ⟨t, hs, .inr rfl⟩
    · exact ⟨t', ht, .inl rfl⟩
  have methods_eq : ∀ {x t'}, g'.symbol? x = some t' →
      ∃ t, g.symbol? x = some t ∧ t'.methods = t.methods := by
    intro x t' ht
    obtain ⟨t, hs, rfl | rfl⟩ := cases_symbol ht
    · exact ⟨_, hs, rfl⟩
    · exact ⟨t, hs, hmethods t⟩
  refine ⟨?_, ?_, ?_, ?_, ?_, ?_, ?_⟩
  · intro x t' ht a ha
    obtain ⟨t, hs, rfl | rfl⟩ := cases_symbol ht
    · exact hissued (hg.attributes hs a ha)
    · exact hissued ((hattributes t a ha).elim (hg.attributes hs a) id)
  · intro x t' ht b hb
    obtain ⟨t, hs, rfl | rfl⟩ := cases_symbol ht
    · exact hissued (hg.bases hs b hb)
    · exact hissued ((hbases t b hb).elim (hg.bases hs b) id)
  · intro x t' ht m hm
    obtain ⟨t, hs, e⟩ := methods_eq ht
    rw [HasMethod, harray]
    exact hg.methods hs m (e ▸ hm)
  · intro m x hx
    rw [method?, harray] at hx
    exact (hg.signatures hx).mono hissued
  · intro x t' ht
    obtain ⟨t, hs, e⟩ := methods_eq ht
    rw [e]
    exact hg.places hs
  · intro m hm
    rw [HasMethod, harray] at hm
    obtain ⟨x, t, hs, hmem⟩ := hg.owned hm
    by_cases hx : x = ty
    · exact ⟨x, change t, by rw [hsymbol, if_pos hx, hs, Option.map_some],
        by rw [hmethods]; exact hmem⟩
    · exact ⟨x, t, by rw [hsymbol, if_neg hx, hs], hmem⟩
  · intro x x' t t' m ht ht' hm hm'
    obtain ⟨_, hs, e⟩ := methods_eq ht
    obtain ⟨_, hs', e'⟩ := methods_eq ht'
    exact hg.apart hs hs' (e ▸ hm) (e' ▸ hm')

/-- A method is added at the end of a type's methods. -/
theorem Attached.addMethod (hg : Attached g) {ty : TypeId} {x : Method} {id : MethodId}
    (hty : g.Issued ty) (hx : g.IssuedMethod x) (h : g.addMethod? ty x = some (id, g')) :
    Attached g' := by
  have hadds := addMethod?_addsMember h
  have issued : ∀ {y}, g.Issued y → g'.Issued y := by
    intro y hy
    obtain ⟨f, hf⟩ := issued_iff_form?.mp hy
    exact issued_iff_form?.mpr ⟨f, (hadds.forms y).trans hf⟩
  unfold addMethod? at h
  obtain ⟨g₁, h₁, e⟩ := Option.map_eq_some_iff.mp h
  cases e
  obtain ⟨_, hsymbol⟩ := modify?_eq_some h₁
  have hasMethod : ∀ {m}, HasMethod { g₁ with methods := g.methods.push x } m ↔
      g.HasMethod m ∨ m = g.nextMethod := by
    intro m
    have hiff : m = g.nextMethod ↔ m.index = g.methods.size := by
      cases m
      simp [nextMethod]
    simp only [HasMethod, Array.size_push, hiff]
    omega
  have cases_symbol : ∀ {y t'}, g₁.symbol? y = some t' →
      ∃ t, g.symbol? y = some t ∧ t'.attributes = t.attributes ∧ t'.bases = t.bases ∧
        (t'.methods = t.methods ∨ y = ty ∧ t'.methods = t.methods ++ [g.nextMethod]) := by
    intro y t' ht
    rw [hsymbol] at ht
    split at ht
    · obtain ⟨t, hs, rfl⟩ := Option.map_eq_some_iff.mp ht
      exact ⟨t, hs, rfl, rfl, .inr ⟨‹_›, rfl⟩⟩
    · exact ⟨t', ht, rfl, rfl, .inl rfl⟩
  have mem_methods : ∀ {y t' m}, g₁.symbol? y = some t' → m ∈ t'.methods →
      ∃ t, g.symbol? y = some t ∧ (m ∈ t.methods ∨ y = ty ∧ m = g.nextMethod) := by
    intro y t' m ht hm
    obtain ⟨t, hs, _, _, e | ⟨hy, e⟩⟩ := cases_symbol ht
    · exact ⟨t, hs, .inl (e ▸ hm)⟩
    · rw [e, List.mem_append, List.mem_singleton] at hm
      exact ⟨t, hs, hm.imp_right fun hm => ⟨hy, hm⟩⟩
  refine ⟨?_, ?_, ?_, ?_, ?_, ?_, ?_⟩
  · intro y t' ht a ha
    obtain ⟨t, hs, e, _, _⟩ := cases_symbol ht
    exact issued (hg.attributes hs a (e ▸ ha))
  · intro y t' ht b hb
    obtain ⟨t, hs, _, e, _⟩ := cases_symbol ht
    exact issued (hg.bases hs b (e ▸ hb))
  · intro y t' ht m hm
    obtain ⟨t, hs, hold | ⟨_, hnew⟩⟩ := mem_methods ht hm
    · exact hasMethod.mpr (.inl (hg.methods hs m hold))
    · exact hasMethod.mpr (.inr hnew)
  · intro m y hy
    simp only [method?, Array.getElem?_push] at hy
    split at hy
    · cases hy
      exact hx.mono issued
    · exact (hg.signatures hy).mono issued
  · intro y t' ht
    obtain ⟨t, hs, _, _, e | ⟨_, e⟩⟩ := cases_symbol ht
    · rw [e]
      exact hg.places hs
    · rw [e]
      refine List.pairwise_append.mpr ⟨hg.places hs, List.pairwise_singleton _ _, ?_⟩
      intro a ha b hb
      cases List.mem_singleton.mp hb
      exact hg.methods hs a ha
  · intro m hm
    rcases hasMethod.mp hm with hold | rfl
    · obtain ⟨y, t, hs, hmem⟩ := hg.owned hold
      by_cases hy : y = ty
      · refine ⟨y, _, (hsymbol y).trans (by rw [if_pos hy, hs, Option.map_some]), ?_⟩
        exact List.mem_append_left _ hmem
      · exact ⟨y, t, (hsymbol y).trans (by rw [if_neg hy, hs]), hmem⟩
    · obtain ⟨t, ht⟩ := issued_iff_symbol?.mp hty
      refine ⟨ty, _, (hsymbol ty).trans (by rw [if_pos rfl, ht, Option.map_some]), ?_⟩
      exact List.mem_append_right _ List.mem_cons_self
  · intro y y' t t' m ht ht' hm hm'
    obtain ⟨u, hs, hold | ⟨hy, hnew⟩⟩ := mem_methods ht hm <;>
      obtain ⟨u', hs', hold' | ⟨hy', hnew'⟩⟩ := mem_methods ht' hm'
    · exact hg.apart hs hs' hold hold'
    · exact absurd hold (hg.not_mem hs (by rw [hnew']; exact Nat.le_refl _))
    · exact absurd hold' (hg.not_mem hs' (by rw [hnew]; exact Nat.le_refl _))
    · exact hy.trans hy'.symm

theorem Change.attached (h : Change g g') (hg : Attached g) : Attached g' := by
  have issued : ∀ {ty}, g.Issued ty → g'.Issued ty := h.issued
  cases h with
  | declare d hd =>
    refine hg.push d.methods rfl rfl hd.attributes hd.bases hd.methods ?_
    refine List.ext_getElem (by simp) fun i _ _ => ?_
    simp
  | addAttribute _ hm h =>
    refine hg.modify h issued (fun _ => rfl) (fun s a ha => ?_) (fun _ _ hb => .inl hb)
    rcases List.mem_append.mp ha with ha | ha
    · exact .inl ha
    · exact .inr (List.mem_singleton.mp ha ▸ hm)
  | addBase _ hb h =>
    refine hg.modify h issued (fun _ => rfl) (fun _ _ ha => .inl ha) (fun s b hb' => ?_)
    rcases List.mem_append.mp hb' with hb' | hb'
    · exact .inl hb'
    · exact .inr (List.mem_singleton.mp hb' ▸ hb)
  | addMethod hty hx h => exact hg.addMethod hty hx h
  | construct _ _ _ _ _ =>
    exact hg.push [] rfl (by simp [TypeGraph.withConstruction]) (by simp) (by simp)
      (by simp) (by simp)
  | array _ _ =>
    exact hg.push [] rfl (by simp [TypeGraph.withArray]) (by simp) (by simp)
      (by simp) (by simp)

/-! ## All together -/

/-- What a graph keeps true of itself. -/
structure Consistent (g : TypeGraph) : Prop extends Layered g, Listed g, Attached g

theorem Consistent.empty : Consistent {} := ⟨.empty, .empty, .empty⟩

theorem Change.consistent (h : Change g g') (hg : Consistent g) : Consistent g' :=
  ⟨h.layered hg.toLayered, h.listed hg.toListed, h.attached hg.toAttached⟩

theorem Changes.consistent (h : Changes g g') (hg : Consistent g) : Consistent g' := by
  induction h with
  | refl => exact hg
  | tail _ hc ih => exact hc.consistent ih

theorem Reachable.consistent (h : Reachable g) : Consistent g := h.changes.consistent .empty

end TypeGraph

end HubBindings
