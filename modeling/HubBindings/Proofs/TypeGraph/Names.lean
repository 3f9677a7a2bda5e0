import HubBindings.Proofs.TypeGraph.Reachable

/-!
Answers of a graph at the forms of types: a declared type has the names of its head and is its own
definition. Its attributes are those of all declarations under its metadata name.
-/

namespace HubBindings.TypeGraph

variable {g : TypeGraph} {ty : TypeId} {h : TypeHead}

theorem symbol?_of_form? {f : TypeForm} (hf : g.form? ty = some f) :
    ∃ s, g.symbol? ty = some s ∧ s.form = f :=
  Option.map_eq_some_iff.mp hf

theorem definition?_eq_form? (g : TypeGraph) (ty : TypeId) :
    g.definition? ty = (g.form? ty).map (·.definition ty) := by
  rw [definition?, form?, Option.map_map]; rfl

theorem arguments?_eq_form? (g : TypeGraph) (ty : TypeId) :
    g.arguments? ty = (g.form? ty).map (·.arguments) := by
  rw [arguments?, form?, Option.map_map]; rfl

theorem element?_eq_form? (g : TypeGraph) (ty : TypeId) :
    g.element? ty = (g.form? ty).map (·.element?) := by
  rw [element?, form?, Option.map_map]; rfl

theorem arguments?_of_form? {f : TypeForm} (hf : g.form? ty = some f) :
    g.arguments? ty = some f.arguments := by
  rw [arguments?_eq_form?, hf, Option.map_some]

theorem element?_of_form? {f : TypeForm} (hf : g.form? ty = some f) :
    g.element? ty = some f.element? := by
  rw [element?_eq_form?, hf, Option.map_some]

theorem firstArgument?_of_constructed {d a : TypeId} {as : List TypeId}
    (hf : g.form? ty = some (.constructed d (a :: as))) :
    g.firstArgument? ty = some (some a) := by
  rw [firstArgument?, arguments?_of_form? hf]
  rfl

theorem typeCount_pos {f : TypeForm} (hf : g.form? ty = some f) : 0 < g.typeCount :=
  Nat.lt_of_le_of_lt (Nat.zero_le _) (issued_iff_form?.mpr ⟨f, hf⟩)

/-- A type that is no array is where the search for its names ends. -/
theorem peel?_of_not_array {f : TypeForm} (hf : g.form? ty = some f) (he : f.element? = none) :
    g.peel? ty = some (ty, 0) := by
  obtain ⟨room, hroom⟩ := Nat.exists_eq_succ_of_ne_zero (Nat.ne_of_gt (typeCount_pos hf))
  rw [peel?, hroom, peelWithin, element?_eq_form?, hf, Option.map_some, he]

section Declared

variable (hf : g.form? ty = some (.declared h))
include hf

theorem head?_of_declared : g.head? ty = some h := by
  obtain ⟨s, hs, hform⟩ := symbol?_of_form? hf
  simp [head?, hs, hform]

theorem metadataName?_of_declared : g.metadataName? ty = some h.metadataName := by
  simp [metadataName?, peel?_of_not_array hf rfl, definition?_eq_form?, hf, TypeForm.definition,
    head?_of_declared hf, String.join]

theorem name?_of_declared : g.name? ty = some h.name := by
  simp [name?, peel?_of_not_array hf rfl, head?_of_declared hf]

theorem nameSpace?_of_declared : g.nameSpace? ty = some h.nameSpace := by
  simp [nameSpace?, peel?_of_not_array hf rfl, head?_of_declared hf]

theorem qualifiedName?_of_declared : g.qualifiedName? ty = some h.qualifiedName := by
  simp [qualifiedName?, peel?_of_not_array hf rfl, head?_of_declared hf]

theorem isGeneric?_of_declared : g.isGeneric? ty = some (decide (0 < h.arity)) := by
  simp [isGeneric?, arity?, head?_of_declared hf, arguments?_eq_form?, hf, TypeForm.arguments]

end Declared

/-- A constructed type has the metadata name of its definition. -/
theorem metadataName?_of_constructed {d : TypeId} {as : List TypeId}
    (hf : g.form? ty = some (.constructed d as)) (hd : g.form? d = some (.declared h)) :
    g.metadataName? ty = some h.metadataName := by
  simp [metadataName?, peel?_of_not_array hf rfl, definition?_eq_form?, hf, TypeForm.definition,
    head?_of_declared hd, String.join]

/-! ## Declarations under one name -/

theorem mem_declared_of_mem_declaredIn {scope : Scope} (hty : ty ∈ g.declaredIn scope) :
    ty ∈ g.declared := by
  cases scope with
  | source => exact (List.mem_filter.mp hty).1
  | sourceAndReferenced => exact hty

theorem fragments?_of_declared (hf : g.form? ty = some (.declared h)) (hty : ty ∈ g.declared) :
    g.fragments? ty = some (g.declaredAs h.metadataName) := by
  have hmem : ty ∈ g.declaredAs h.metadataName := by
    rw [declaredAs, List.mem_filter]
    exact ⟨hty, by simp [metadataName?_of_declared hf]⟩
  obtain ⟨first, rest, hsplit⟩ := List.exists_cons_of_ne_nil (List.ne_nil_of_mem hmem)
  simp [fragments?, definition?_eq_form?, hf, TypeForm.definition, metadataName?_of_declared hf,
    hsplit]

theorem Coherent.hasAttribute?_congr (hg : Coherent g) {ty ty' : TypeId} (hty : ty ∈ g.declared)
    (hty' : ty' ∈ g.declared) (hname : g.metadataName? ty = g.metadataName? ty')
    (marker : TypeId) : g.hasAttribute? ty marker = g.hasAttribute? ty' marker := by
  obtain ⟨h, hf⟩ := hg.declared ty hty
  obtain ⟨h', hf'⟩ := hg.declared ty' hty'
  rw [metadataName?_of_declared hf, metadataName?_of_declared hf'] at hname
  rw [hasAttribute?, hasAttribute?, fragments?_of_declared hf hty, fragments?_of_declared hf' hty',
    Option.some.inj hname]

end HubBindings.TypeGraph
