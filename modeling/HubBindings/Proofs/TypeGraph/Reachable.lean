import HubBindings.Manifest.Load
import HubBindings.Proofs.Sequencing
import Mathlib.Logic.Relation

/-!
Graphs that the operations can build.

* `Operation` is one call on a graph with addresses that the graph has issued, whether it succeeds
  or fails; `Reachable` is every graph that calls lead to from the empty graph or the core types.
* `Change` is a single addition to a graph. Every call is a sequence of changes
  (`Operation.changes`), so an invariant of changes is an invariant of calls; calls that look types
  up or construct them only make changes of one kind (`Interning`).
* `Coherent` is what the look-up of names rests on: listed declarations are declarations, and a
  name leads to a declaration of that name (`Reachable.coherent`).
-/

namespace HubBindings.TypeGraph

open Sequencing

/-! ## Issued addresses -/

/-- The graph has issued the address. -/
def Issued (g : TypeGraph) (ty : TypeId) : Prop := ty.index < g.types.size

/-- The graph has issued every address in a method. -/
def IssuedMethod (g : TypeGraph) (m : Method) : Prop :=
  g.Issued m.returns ∧ ∀ p ∈ m.parameters, g.Issued p.type

/-- The graph has issued every address in a declaration. -/
structure IssuedDeclaration (g : TypeGraph) (d : Declaration) : Prop where
  attributes : ∀ ty ∈ d.attributes, g.Issued ty
  bases : ∀ ty ∈ d.bases, g.Issued ty
  methods : ∀ m ∈ d.methods, g.IssuedMethod m

instance (g : TypeGraph) (ty : TypeId) : Decidable (g.Issued ty) :=
  inferInstanceAs (Decidable (ty.index < g.types.size))

instance (g : TypeGraph) (m : Method) : Decidable (g.IssuedMethod m) :=
  inferInstanceAs (Decidable (_ ∧ _))

instance (g : TypeGraph) (d : Declaration) : Decidable (g.IssuedDeclaration d) :=
  decidable_of_iff
    ((∀ ty ∈ d.attributes, g.Issued ty) ∧ (∀ ty ∈ d.bases, g.Issued ty) ∧
      ∀ m ∈ d.methods, g.IssuedMethod m)
    ⟨fun ⟨ha, hb, hm⟩ => ⟨ha, hb, hm⟩, fun h => ⟨h.attributes, h.bases, h.methods⟩⟩

/-- One call on a graph with issued addresses, and the graph after it. -/
inductive Operation (g : TypeGraph) : TypeGraph → Prop
  | declare (d : Declaration) : g.IssuedDeclaration d → Operation g (g.declare d).2
  | addAttribute {ty marker : TypeId} {g' : TypeGraph} :
      g.Issued ty → g.Issued marker → g.addAttribute? ty marker = some g' → Operation g g'
  | addBase {ty base : TypeId} {g' : TypeGraph} :
      g.Issued ty → g.Issued base → g.addBase? ty base = some g' → Operation g g'
  | addMethod {ty : TypeId} {m : Method} {id : MethodId} {g' : TypeGraph} :
      g.Issued ty → g.IssuedMethod m → g.addMethod? ty m = some (id, g') → Operation g g'
  | construct {type : TypeId} {arguments : List TypeId} {r : Except GraphError TypeId}
      {g' : TypeGraph} :
      g.Issued type → (∀ a ∈ arguments, g.Issued a) →
        (construct type arguments).run g = some (r, g') → Operation g g'
  | constructNamed {name : String} {arguments : List TypeId} {r : Except GraphError TypeId}
      {g' : TypeGraph} :
      (∀ a ∈ arguments, g.Issued a) →
        (constructNamed name arguments).run g = some (r, g') → Operation g g'
  | arrayOf {element : TypeId} {r : Except GraphError TypeId} {g' : TypeGraph} :
      g.Issued element → (arrayOf element).run g = some (r, g') → Operation g g'
  | resolve {ref : TypeRef} {r : Except GraphError TypeId} {g' : TypeGraph} :
      ref.resolve.run g = some (r, g') → Operation g g'

/-- Graphs that calls lead to. -/
inductive Reachable : TypeGraph → Prop
  | empty : Reachable {}
  | core : Reachable core
  | step {g g' : TypeGraph} : Reachable g → Operation g g' → Reachable g'

/-! ## Changes -/

/-- The graph with a new type constructed from a definition. -/
def withConstruction (g : TypeGraph) (d : TypeId) (arguments : List TypeId) : TypeGraph :=
  { g with
    types := g.types.push { form := .constructed d arguments }
    constructions := g.constructions ++ [((d, arguments), g.nextType)] }

/-- The graph with a new array type. -/
def withArray (g : TypeGraph) (element : TypeId) : TypeGraph :=
  { g with
    types := g.types.push { form := .array element }
    arrays := g.arrays ++ [(element, g.nextType)] }

/-- One addition to a graph. -/
inductive Change (g : TypeGraph) : TypeGraph → Prop
  | declare (d : Declaration) : g.IssuedDeclaration d → Change g (g.declare d).2
  | addAttribute {ty marker : TypeId} {g' : TypeGraph} :
      g.Issued ty → g.Issued marker → g.addAttribute? ty marker = some g' → Change g g'
  | addBase {ty base : TypeId} {g' : TypeGraph} :
      g.Issued ty → g.Issued base → g.addBase? ty base = some g' → Change g g'
  | addMethod {ty : TypeId} {m : Method} {id : MethodId} {g' : TypeGraph} :
      g.Issued ty → g.IssuedMethod m → g.addMethod? ty m = some (id, g') → Change g g'
  | construct {type d : TypeId} {arguments : List TypeId} :
      g.Issued type → g.definition? type = some d → g.arity? d = some arguments.length →
        (∀ a ∈ arguments, g.Issued a) → g.constructions.lookup (d, arguments) = none →
        Change g (g.withConstruction d arguments)
  | array {element : TypeId} :
      g.Issued element → g.arrays.lookup element = none → Change g (g.withArray element)

/-- A sequence of additions to a graph. -/
abbrev Changes : TypeGraph → TypeGraph → Prop := Relation.ReflTransGen Change

/-- The addition of a constructed type or an array type. -/
inductive Interning (g : TypeGraph) : TypeGraph → Prop
  | construct {type d : TypeId} {arguments : List TypeId} :
      g.Issued type → g.definition? type = some d → g.arity? d = some arguments.length →
        (∀ a ∈ arguments, g.Issued a) → g.constructions.lookup (d, arguments) = none →
        Interning g (g.withConstruction d arguments)
  | array {element : TypeId} :
      g.Issued element → g.arrays.lookup element = none → Interning g (g.withArray element)

/-- A sequence of additions of constructed types and array types. -/
abbrev Internings : TypeGraph → TypeGraph → Prop := Relation.ReflTransGen Interning

variable {g g' : TypeGraph}

theorem Interning.change (h : Interning g g') : Change g g' := by
  cases h with
  | construct htype hd ha has hl => exact .construct htype hd ha has hl
  | array he hl => exact .array he hl

theorem Internings.changes (h : Internings g g') : Changes g g' := by
  induction h with
  | refl => exact .refl
  | tail _ hi ih => exact ih.tail hi.change

theorem Interning.tables (h : Interning g g') : g'.methods = g.methods ∧
    g'.declared = g.declared ∧ g'.definitions = g.definitions := by
  cases h with
  | construct _ _ _ _ _ => exact ⟨rfl, rfl, rfl⟩
  | array _ _ => exact ⟨rfl, rfl, rfl⟩

theorem Internings.tables (h : Internings g g') : g'.methods = g.methods ∧
    g'.declared = g.declared ∧ g'.definitions = g.definitions := by
  induction h with
  | refl => exact ⟨rfl, rfl, rfl⟩
  | tail _ hi ih =>
    obtain ⟨hm, hd, hn⟩ := hi.tables
    exact ⟨hm.trans ih.1, hd.trans ih.2.1, hn.trans ih.2.2⟩

/-- A call that constructs a type fails or finds the type, and then leaves the graph as it is, or
adds it. -/
theorem construct_cases {type : TypeId} {arguments : List TypeId} {r : Except GraphError TypeId}
    (h : (construct type arguments).run g = some (r, g')) :
    ∃ d arity, g.definition? type = some d ∧ g.arity? d = some arity ∧
      ((∃ name, arity ≠ arguments.length ∧ g.metadataName? d = some name ∧
          r = .error (.arityMismatch name arity arguments.length) ∧ g' = g) ∨
        (∃ ty, arity = arguments.length ∧ g.constructions.lookup (d, arguments) = some ty ∧
          r = .ok ty ∧ g' = g) ∨
        (arity = arguments.length ∧ g.constructions.lookup (d, arguments) = none ∧
          r = .ok g.nextType ∧ g' = g.withConstruction d arguments)) := by
  unfold construct at h
  rw [run_get_bind, run_lift_bind] at h
  obtain ⟨d, hd, h⟩ := Option.bind_eq_some_iff.mp h
  rw [run_lift_bind] at h
  obtain ⟨arity, ha, h⟩ := Option.bind_eq_some_iff.mp h
  refine ⟨d, arity, hd, ha, ?_⟩
  by_cases hn : arity = arguments.length
  · simp only [hn, ne_eq, not_true_eq_false, ↓reduceIte] at h
    cases hl : g.constructions.lookup (d, arguments) with
    | some ty =>
      rw [hl] at h
      cases h
      exact .inr (.inl ⟨ty, hn, rfl, rfl, rfl⟩)
    | none =>
      rw [hl] at h
      cases h
      exact .inr (.inr ⟨hn, rfl, rfl, rfl⟩)
  · simp only [ne_eq, hn, not_false_eq_true, ↓reduceIte] at h
    rw [run_lift_bind] at h
    obtain ⟨name, hname, h⟩ := Option.bind_eq_some_iff.mp h
    cases h
    exact .inl ⟨name, hn, hname, rfl, rfl⟩

/-- A call for an array type finds it, and then leaves the graph as it is, or adds it. -/
theorem arrayOf_cases {element : TypeId} {r : Except GraphError TypeId}
    (h : (arrayOf element).run g = some (r, g')) :
    (∃ ty, g.arrays.lookup element = some ty ∧ r = .ok ty ∧ g' = g) ∨
      (g.arrays.lookup element = none ∧ r = .ok g.nextType ∧ g' = g.withArray element) := by
  unfold arrayOf at h
  rw [run_get_bind] at h
  cases hl : g.arrays.lookup element with
  | some ty =>
    rw [hl] at h
    cases h
    exact .inl ⟨ty, rfl, rfl, rfl⟩
  | none =>
    rw [hl] at h
    simp only [] at h
    rw [run_lift_bind] at h
    obtain ⟨s, _, h⟩ := Option.bind_eq_some_iff.mp h
    cases h
    exact .inr ⟨rfl, rfl, rfl⟩

theorem require_cases {name : String} {r : Except GraphError TypeId}
    (h : (require name).run g = some (r, g')) :
    g' = g ∧ ∀ ty, r = .ok ty → g.lookup name = some ty := by
  unfold require at h
  rw [run_get_bind] at h
  cases hl : g.lookup name with
  | some ty =>
    rw [hl] at h
    cases h
    exact ⟨rfl, fun _ e => by cases e; rfl⟩
  | none =>
    rw [hl] at h
    cases h
    exact ⟨rfl, fun _ e => by cases e⟩

/-! ## Forms -/

/-- How the type at an address is made up. -/
def form? (g : TypeGraph) (ty : TypeId) : Option TypeForm := (g.symbol? ty).map (·.form)

theorem issued_iff_form? {ty : TypeId} : g.Issued ty ↔ ∃ f, g.form? ty = some f := by
  simp only [Issued, form?, symbol?, Option.map_eq_some_iff, Array.getElem?_eq_some_iff]
  constructor
  · intro h; exact ⟨_, _, ⟨h, rfl⟩, rfl⟩
  · rintro ⟨_, _, ⟨h, _⟩, _⟩; exact h

theorem form?_push {s : TypeSymbol} (h : g'.types = g.types.push s) (ty : TypeId) :
    g'.form? ty = if ty = g.nextType then some s.form else g.form? ty := by
  have hiff : ty = g.nextType ↔ ty.index = g.types.size := by
    cases ty; simp [nextType]
  simp only [form?, symbol?, h, Array.getElem?_push, hiff]
  split <;> rfl

theorem form?_push_new {s : TypeSymbol} (h : g'.types = g.types.push s) :
    g'.form? g.nextType = some s.form := by
  rw [form?_push h, if_pos rfl]

theorem form?_declare (g : TypeGraph) (d : Declaration) :
    (g.declare d).2.form? g.nextType = some (.declared d.head) := by
  rw [form?_push_new (g := g) rfl]

theorem form?_nextType (g : TypeGraph) : g.form? g.nextType = none := by
  simp [form?, symbol?, nextType]

/-- A type got a member, and nothing else changed. -/
structure AddsMember (g g' : TypeGraph) : Prop where
  forms : ∀ ty, g'.form? ty = g.form? ty
  declared : g'.declared = g.declared
  definitions : g'.definitions = g.definitions
  constructions : g'.constructions = g.constructions
  arrays : g'.arrays = g.arrays

theorem modify?_addsMember {ty : TypeId} {change : TypeSymbol → TypeSymbol}
    (hc : ∀ s, (change s).form = s.form) (h : g.modify? ty change = some g') :
    AddsMember g g' := by
  unfold modify? at h
  split at h
  · cases h
    refine ⟨?_, rfl, rfl, rfl, rfl⟩
    intro x
    simp only [form?, symbol?, Array.getElem?_modify]
    split
    · cases g.types[x.index]? <;> simp [hc]
    · rfl
  · cases h

theorem addMethod?_addsMember {ty : TypeId} {m : Method} {id : MethodId}
    (h : g.addMethod? ty m = some (id, g')) : AddsMember g g' := by
  unfold addMethod? at h
  obtain ⟨g₁, h₁, e⟩ := Option.map_eq_some_iff.mp h
  cases e
  have hm := modify?_addsMember (by intro s; rfl) h₁
  exact ⟨hm.forms, hm.declared, hm.definitions, hm.constructions, hm.arrays⟩

theorem Change.form?_kept (h : Change g g') {ty : TypeId} {f : TypeForm}
    (hf : g.form? ty = some f) : g'.form? ty = some f := by
  have hne : ty ≠ g.nextType := by
    rintro rfl
    rw [form?_nextType] at hf
    cases hf
  cases h with
  | declare d _ => rw [form?_push (g := g) rfl, if_neg hne, hf]
  | addAttribute _ _ h => rw [(modify?_addsMember (by intro s; rfl) h).forms, hf]
  | addBase _ _ h => rw [(modify?_addsMember (by intro s; rfl) h).forms, hf]
  | addMethod _ _ h => rw [(addMethod?_addsMember h).forms, hf]
  | construct _ _ _ _ _ => rw [form?_push (g := g) rfl, if_neg hne, hf]
  | array _ _ => rw [form?_push (g := g) rfl, if_neg hne, hf]

theorem Changes.form?_kept (h : Changes g g') {ty : TypeId} {f : TypeForm}
    (hf : g.form? ty = some f) : g'.form? ty = some f := by
  induction h with
  | refl => exact hf
  | tail _ hc ih => exact hc.form?_kept ih

theorem Changes.issued (h : Changes g g') {ty : TypeId} (hty : g.Issued ty) : g'.Issued ty := by
  obtain ⟨f, hf⟩ := issued_iff_form?.mp hty
  exact issued_iff_form?.mpr ⟨f, h.form?_kept hf⟩

/-! ## Coherence -/

/-- Listed declarations are declarations, a name leads to a declaration of that name, and the
tables of constructed types and arrays lead to issued addresses. -/
structure Coherent (g : TypeGraph) : Prop where
  declared : ∀ ty ∈ g.declared, ∃ h, g.form? ty = some (.declared h)
  lookup : ∀ {name : String} {ty : TypeId}, g.lookup name = some ty →
    ∃ h, g.form? ty = some (.declared h) ∧ h.metadataName = name
  constructions : ∀ {key : TypeId × List TypeId} {ty : TypeId},
    g.constructions.lookup key = some ty → g.Issued ty
  arrays : ∀ {element ty : TypeId}, g.arrays.lookup element = some ty → g.Issued ty

theorem Coherent.empty : Coherent {} where
  declared := by simp
  lookup h := by cases h
  constructions h := by cases h
  arrays h := by cases h

/-- A look-up in a table with one more entry at its end. -/
theorem lookup_append_singleton {κ ν : Type} [BEq κ] [LawfulBEq κ] {table : List (κ × ν)}
    {key k : κ} {v x : ν} (h : (table ++ [(k, v)]).lookup key = some x) :
    table.lookup key = some x ∨ key = k ∧ x = v := by
  rw [List.lookup_append] at h
  cases hl : table.lookup key with
  | some y => rw [hl] at h; exact .inl h
  | none =>
    rw [hl] at h
    by_cases e : key = k
    · subst e
      simp only [List.lookup_cons_self, Option.none_or, Option.some.injEq] at h
      exact .inr ⟨rfl, h.symm⟩
    · have hb : (key == k) = false := by simpa using e
      simp [List.lookup_cons, hb] at h

theorem AddsMember.coherent (h : AddsMember g g') (hg : Coherent g) : Coherent g' where
  declared ty hty := by
    obtain ⟨x, hx⟩ := hg.declared ty (h.declared ▸ hty)
    exact ⟨x, (h.forms ty).trans hx⟩
  lookup {name ty} hl := by
    have hl' : g.lookup name = some ty := by rw [← hl]; simp only [TypeGraph.lookup, h.definitions]
    obtain ⟨x, hx, hn⟩ := hg.lookup hl'
    exact ⟨x, (h.forms ty).trans hx, hn⟩
  constructions {key ty} hl := by
    obtain ⟨f, hf⟩ := issued_iff_form?.mp (hg.constructions (h.constructions ▸ hl))
    exact issued_iff_form?.mpr ⟨f, (h.forms ty).trans hf⟩
  arrays {element ty} hl := by
    obtain ⟨f, hf⟩ := issued_iff_form?.mp (hg.arrays (h.arrays ▸ hl))
    exact issued_iff_form?.mpr ⟨f, (h.forms ty).trans hf⟩

private theorem declare_coherent (hg : Coherent g) (d : Declaration) (hd : g.IssuedDeclaration d) :
    Coherent (g.declare d).2 := by
  have change : Change g (g.declare d).2 := .declare d hd
  have new := form?_declare g d
  refine ⟨?_, ?_, ?_, ?_⟩
  · intro ty hty
    rcases List.mem_append.mp hty with hty | hty
    · obtain ⟨x, hx⟩ := hg.declared ty hty
      exact ⟨x, change.form?_kept hx⟩
    · cases List.mem_singleton.mp hty
      exact ⟨_, new⟩
  · intro name ty hl
    -- the name of the new declaration leads to it only if it led nowhere before
    have hcases : g.lookup name = some ty ∨ name = d.head.metadataName ∧ ty = g.nextType := by
      change (if (g.lookup d.head.metadataName).isSome then g.definitions
        else g.definitions ++ [(d.head.metadataName, g.nextType)]).lookup name = some ty at hl
      split at hl
      · exact .inl hl
      · exact lookup_append_singleton hl
    rcases hcases with hl | ⟨rfl, rfl⟩
    · obtain ⟨x, hx, hn⟩ := hg.lookup hl
      exact ⟨x, change.form?_kept hx, hn⟩
    · exact ⟨_, new, rfl⟩
  · intro key ty hl
    exact Changes.issued (.single change) (hg.constructions hl)
  · intro e ty hl
    exact Changes.issued (.single change) (hg.arrays hl)

/-- A type that is not declared leaves the declarations and their names alone. -/
theorem Coherent.of_push (hg : Coherent g) {s : TypeSymbol} (htypes : g'.types = g.types.push s)
    (hdec : g'.declared = g.declared) (hdef : g'.definitions = g.definitions)
    (hcon : ∀ {key ty}, g'.constructions.lookup key = some ty →
      g.constructions.lookup key = some ty ∨ ty = g.nextType)
    (harr : ∀ {e ty}, g'.arrays.lookup e = some ty →
      g.arrays.lookup e = some ty ∨ ty = g.nextType) :
    Coherent g' := by
  have forms : ∀ {ty f}, g.form? ty = some f → g'.form? ty = some f := by
    intro ty f hf
    rw [form?_push htypes, if_neg ?_, hf]
    rintro rfl
    rw [form?_nextType] at hf
    cases hf
  have issued : ∀ {ty}, g.Issued ty ∨ ty = g.nextType → g'.Issued ty := by
    rintro ty (hty | rfl)
    · obtain ⟨f, hf⟩ := issued_iff_form?.mp hty
      exact issued_iff_form?.mpr ⟨f, forms hf⟩
    · exact issued_iff_form?.mpr ⟨s.form, by rw [form?_push htypes, if_pos rfl]⟩
  refine ⟨?_, ?_, ?_, ?_⟩
  · intro ty hty
    obtain ⟨x, hx⟩ := hg.declared ty (hdec ▸ hty)
    exact ⟨x, forms hx⟩
  · intro name ty hl
    have hl' : g.lookup name = some ty := by rw [← hl]; simp only [TypeGraph.lookup, hdef]
    obtain ⟨x, hx, hn⟩ := hg.lookup hl'
    exact ⟨x, forms hx, hn⟩
  · intro key ty hl
    exact issued ((hcon hl).imp_left hg.constructions)
  · intro e ty hl
    exact issued ((harr hl).imp_left hg.arrays)

theorem Change.coherent (h : Change g g') (hg : Coherent g) : Coherent g' := by
  cases h with
  | declare d hd => exact declare_coherent hg d hd
  | addAttribute _ _ h => exact (modify?_addsMember (by intro s; rfl) h).coherent hg
  | addBase _ _ h => exact (modify?_addsMember (by intro s; rfl) h).coherent hg
  | addMethod _ _ h => exact (addMethod?_addsMember h).coherent hg
  | construct _ _ _ _ _ =>
    exact hg.of_push rfl rfl rfl
      (fun hl => (lookup_append_singleton hl).imp_right And.right) (fun hl => .inl hl)
  | array _ _ =>
    exact hg.of_push rfl rfl rfl
      (fun hl => .inl hl) (fun hl => (lookup_append_singleton hl).imp_right And.right)

theorem Changes.coherent (h : Changes g g') (hg : Coherent g) : Coherent g' := by
  induction h with
  | refl => exact hg
  | tail _ hc ih => exact hc.coherent ih

/-! ## Calls are sequences of changes -/

theorem construct_internings (hg : Coherent g) {type : TypeId} {arguments : List TypeId}
    {r : Except GraphError TypeId} (htype : g.Issued type) (has : ∀ a ∈ arguments, g.Issued a)
    (h : (construct type arguments).run g = some (r, g')) :
    Internings g g' ∧ ∀ ty, r = .ok ty → g'.Issued ty := by
  obtain ⟨d, arity, hd, ha, hcases⟩ := construct_cases h
  rcases hcases with ⟨_, _, _, rfl, rfl⟩ | ⟨ty, _, hl, rfl, rfl⟩ | ⟨rfl, hl, rfl, rfl⟩
  · exact ⟨.refl, fun _ e => by cases e⟩
  · refine ⟨.refl, fun _ e => ?_⟩
    cases e
    exact hg.constructions hl
  · refine ⟨.single (.construct htype hd ha has hl), fun _ e => ?_⟩
    cases e
    exact issued_iff_form?.mpr ⟨_, form?_push_new (g := g) rfl⟩

theorem arrayOf_internings (hg : Coherent g) {element : TypeId} {r : Except GraphError TypeId}
    (he : g.Issued element) (h : (arrayOf element).run g = some (r, g')) :
    Internings g g' ∧ ∀ ty, r = .ok ty → g'.Issued ty := by
  rcases arrayOf_cases h with ⟨ty, hl, rfl, rfl⟩ | ⟨hl, rfl, rfl⟩
  · refine ⟨.refl, fun _ e => ?_⟩
    cases e
    exact hg.arrays hl
  · refine ⟨.single (.array he hl), fun _ e => ?_⟩
    cases e
    exact issued_iff_form?.mpr ⟨_, form?_push_new (g := g) rfl⟩

theorem require_issued (hg : Coherent g) {name : String} {r : Except GraphError TypeId}
    (h : (require name).run g = some (r, g')) : g' = g ∧ ∀ ty, r = .ok ty → g.Issued ty := by
  obtain ⟨e, hr⟩ := require_cases h
  refine ⟨e, fun ty hty => ?_⟩
  obtain ⟨x, hx, _⟩ := hg.lookup (hr ty hty)
  exact issued_iff_form?.mpr ⟨_, hx⟩

theorem constructNamed_internings (hg : Coherent g) {name : String} {arguments : List TypeId}
    {r : Except GraphError TypeId} (has : ∀ a ∈ arguments, g.Issued a)
    (h : (constructNamed name arguments).run g = some (r, g')) : Internings g g' := by
  rcases run_bind_iff.mp h with ⟨_, hq, _⟩ | ⟨d, g₁, hq, hc⟩
  · rw [(require_issued hg hq).1]
  · obtain ⟨rfl, hd⟩ := require_issued hg hq
    exact (construct_internings hg (hd d rfl) has hc).1

mutual

theorem resolve_internings : ∀ (ref : TypeRef) {g g' : TypeGraph} {r : Except GraphError TypeId},
    Coherent g → ref.resolve.run g = some (r, g') →
      Internings g g' ∧ ∀ ty, r = .ok ty → g'.Issued ty
  | .named name, g, g', r, hg, h => by
    rw [TypeRef.resolve] at h
    obtain ⟨rfl, hr⟩ := require_issued hg h
    exact ⟨.refl, hr⟩
  | .generic definition arguments, g, g', r, hg, h => by
    rw [TypeRef.resolve] at h
    rcases run_bind_iff.mp h with ⟨_, hq, rfl⟩ | ⟨d, g₁, hq, h₁⟩
    · rw [(require_issued hg hq).1]
      exact ⟨.refl, fun _ e => by cases e⟩
    · obtain ⟨rfl, hd⟩ := require_issued hg hq
      rcases run_bind_iff.mp h₁ with ⟨_, ha, rfl⟩ | ⟨as, g₂, ha, h₂⟩
      · exact ⟨(resolveAll_internings arguments hg ha).1, fun _ e => by cases e⟩
      · obtain ⟨hc, has⟩ := resolveAll_internings arguments hg ha
        obtain ⟨hc', hr⟩ :=
          construct_internings (hc.changes.coherent hg) (hc.changes.issued (hd d rfl)) (has as rfl)
            h₂
        exact ⟨hc.trans hc', hr⟩
  | .array element, g, g', r, hg, h => by
    rw [TypeRef.resolve] at h
    rcases run_bind_iff.mp h with ⟨_, he, rfl⟩ | ⟨e, g₁, he, h₁⟩
    · exact ⟨(resolve_internings element hg he).1, fun _ e => by cases e⟩
    · obtain ⟨hc, hi⟩ := resolve_internings element hg he
      obtain ⟨hc', hr⟩ := arrayOf_internings (hc.changes.coherent hg) (hi e rfl) h₁
      exact ⟨hc.trans hc', hr⟩

theorem resolveAll_internings : ∀ (refs : List TypeRef) {g g' : TypeGraph}
    {r : Except GraphError (List TypeId)}, Coherent g →
      (TypeRef.resolveAll refs).run g = some (r, g') →
      Internings g g' ∧ ∀ tys, r = .ok tys → ∀ ty ∈ tys, g'.Issued ty
  | [], g, g', r, hg, h => by
    rw [TypeRef.resolveAll] at h
    cases h
    refine ⟨.refl, fun _ e => ?_⟩
    cases e
    simp
  | ref :: rest, g, g', r, hg, h => by
    rw [TypeRef.resolveAll] at h
    rcases run_bind_iff.mp h with ⟨_, hf, rfl⟩ | ⟨ty, g₁, hf, h₁⟩
    · exact ⟨(resolve_internings ref hg hf).1, fun _ e => by cases e⟩
    · obtain ⟨hc, hi⟩ := resolve_internings ref hg hf
      rcases run_bind_iff.mp h₁ with ⟨_, hs, rfl⟩ | ⟨tys, g₂, hs, h₂⟩
      · exact ⟨hc.trans (resolveAll_internings rest (hc.changes.coherent hg) hs).1,
          fun _ e => by cases e⟩
      · obtain ⟨hc', hi'⟩ := resolveAll_internings rest (hc.changes.coherent hg) hs
        cases h₂
        refine ⟨hc.trans hc', fun _ e => ?_⟩
        cases e
        intro x hx
        rcases List.mem_cons.mp hx with rfl | hx
        · exact hc'.changes.issued (hi x rfl)
        · exact hi' tys rfl x hx

end

theorem Operation.changes (hg : Coherent g) (h : Operation g g') : Changes g g' := by
  cases h with
  | declare d hd => exact .single (.declare d hd)
  | addAttribute hty hm h => exact .single (.addAttribute hty hm h)
  | addBase hty hb h => exact .single (.addBase hty hb h)
  | addMethod hty hm h => exact .single (.addMethod hty hm h)
  | construct htype has h => exact (construct_internings hg htype has h).1.changes
  | constructNamed has h => exact (constructNamed_internings hg has h).changes
  | arrayOf he h => exact (arrayOf_internings hg he h).1.changes
  | resolve h => exact (resolve_internings _ hg h).1.changes

/-! ## Lists of declarations -/

/-- The graph after some declarations. -/
def declareAll (ds : List Declaration) (g : TypeGraph) : TypeGraph :=
  ds.foldl (fun g d => (g.declare d).2) g

/-- Every declaration has only addresses that are issued by then. -/
def IssuedDeclarations (g : TypeGraph) : List Declaration → Prop
  | [] => True
  | d :: ds => g.IssuedDeclaration d ∧ IssuedDeclarations (g.declare d).2 ds

instance decidableIssuedDeclarations : ∀ (ds : List Declaration) (g : TypeGraph),
    Decidable (g.IssuedDeclarations ds)
  | [], _ => .isTrue trivial
  | d :: ds, g =>
    have := decidableIssuedDeclarations ds (g.declare d).2
    inferInstanceAs (Decidable (_ ∧ _))

private theorem declareAll_changes {ds : List Declaration} (h : g.IssuedDeclarations ds) :
    Changes g (declareAll ds g) := by
  induction ds generalizing g with
  | nil => exact .refl
  | cons d ds ih => exact .head (.declare d h.1) (ih h.2)

theorem Reachable.declareAll (hg : Reachable g) {ds : List Declaration}
    (h : g.IssuedDeclarations ds) : Reachable (declareAll ds g) := by
  induction ds generalizing g with
  | nil => exact hg
  | cons d ds ih => exact ih (.step hg (.declare d h.1)) h.2

theorem Reachable.withConstruction (hg : Reachable g) (d : TypeId) (arguments : List TypeId)
    (hd : g.Issued d) (has : ∀ a ∈ arguments, g.Issued a)
    (h : (construct d arguments).run g = some (.ok g.nextType, g.withConstruction d arguments)) :
    Reachable (g.withConstruction d arguments) :=
  .step hg (.construct hd has h)

theorem issuedDeclarations_of_heads (heads : List TypeHead) (g : TypeGraph) :
    g.IssuedDeclarations (heads.map fun h => { head := h }) := by
  induction heads generalizing g with
  | nil => trivial
  | cons h heads ih => exact ⟨⟨by simp, by simp, by simp⟩, ih _⟩

theorem core_eq_declareAll : core = declareAll (coreTypes.map fun h => { head := h }) {} := by
  rw [declareAll, List.foldl_map]; rfl

theorem core_changes : Changes {} core := by
  rw [core_eq_declareAll]
  exact declareAll_changes (issuedDeclarations_of_heads _ _)

/-- Calls lead to nothing that changes of the empty graph do not lead to. -/
theorem Reachable.changes (h : Reachable g) : Changes {} g := by
  induction h with
  | empty => exact .refl
  | core => exact core_changes
  | step _ ho ih => exact ih.trans (ho.changes (ih.coherent .empty))

theorem Reachable.coherent (h : Reachable g) : Coherent g := h.changes.coherent .empty

end HubBindings.TypeGraph
