import HubBindings.Proofs.TypeGraph.Consistent

/-!
The lists and tables of a graph agree with its symbols, after any calls.

* `storedTypes` is every address of a type that a graph holds anywhere, and all are issued;
* `DeclaredReachable` is reached without adding members to constructed types or arrays, so that
  these have none (`DeclaredReachable.bare`);
* `Reachable.represented` puts everything together.
-/

namespace HubBindings.TypeGraph

variable {g g' : TypeGraph}

/-! ## Stored addresses -/

/-- Every address of a type that a graph holds: in forms and members, in signatures, in the list of
declarations and in the tables. -/
def storedTypes (g : TypeGraph) : List TypeId :=
  g.types.toList.flatMap (fun s => s.form.parts ++ s.attributes ++ s.bases)
    ++ g.methods.toList.flatMap (fun m => m.returns :: m.parameters.map (·.type))
    ++ g.declared
    ++ g.definitions.map (·.2)
    ++ g.constructions.flatMap (fun e => e.1.1 :: e.2 :: e.1.2)
    ++ g.arrays.flatMap (fun e => [e.1, e.2])

theorem lookup_of_mem {κ ν : Type} [BEq κ] [LawfulBEq κ] {table : List (κ × ν)} {k : κ} {v : ν}
    (hkeys : (table.map (·.1)).Nodup) (h : (k, v) ∈ table) : table.lookup k = some v := by
  induction table with
  | nil => cases h
  | cons e rest ih =>
    obtain ⟨hfirst, hrest⟩ := List.nodup_cons.mp hkeys
    rcases List.mem_cons.mp h with rfl | h
    · exact List.lookup_cons_self
    · have hne : (k == e.1) = false := by
        rw [beq_eq_false_iff_ne]
        rintro rfl
        exact hfirst (List.mem_map.mpr ⟨_, h, rfl⟩)
      rw [List.lookup_cons, hne]
      exact ih hrest h

private theorem exists_symbol? {s : TypeSymbol} (h : s ∈ g.types.toList) :
    ∃ ty, g.symbol? ty = some s := by
  obtain ⟨i, hi⟩ := List.mem_iff_getElem?.mp h
  exact ⟨⟨i⟩, by simpa [symbol?] using hi⟩

private theorem exists_method? {m : Method} (h : m ∈ g.methods.toList) :
    ∃ id, g.method? id = some m := by
  obtain ⟨i, hi⟩ := List.mem_iff_getElem?.mp h
  exact ⟨⟨i⟩, by simpa [method?] using hi⟩

/-- What a form is made up of is issued. -/
theorem Layered.issued_of_parts (hg : Layered g) {ty p : TypeId} {f : TypeForm}
    (hf : g.form? ty = some f) (hp : p ∈ f.parts) : g.Issued p :=
  Nat.lt_trans (hg.descends hf p hp) (issued_iff_form?.mpr ⟨f, hf⟩)

theorem Consistent.issued_of_stored (hg : Consistent g) {ty : TypeId} (h : ty ∈ g.storedTypes) :
    g.Issued ty := by
  simp only [storedTypes, List.mem_append] at h
  rcases h with ((((h | h) | h) | h) | h) | h
  · obtain ⟨s, hs, h⟩ := List.mem_flatMap.mp h
    obtain ⟨x, hx⟩ := exists_symbol? hs
    simp only [List.mem_append] at h
    rcases h with (h | h) | h
    · exact hg.issued_of_parts (show g.form? x = some s.form by rw [form?, hx]; rfl) h
    · exact hg.attributes hx ty h
    · exact hg.bases hx ty h
  · obtain ⟨m, hm, h⟩ := List.mem_flatMap.mp h
    obtain ⟨id, hid⟩ := exists_method? hm
    obtain ⟨hreturns, hparameters⟩ := hg.signatures hid
    rcases List.mem_cons.mp h with rfl | h
    · exact hreturns
    · obtain ⟨p, hp, rfl⟩ := List.mem_map.mp h
      exact hparameters p hp
  · exact hg.toListed.issued h
  · obtain ⟨⟨name, x⟩, hx, rfl⟩ := List.mem_map.mp h
    have hlookup : g.lookup name = some x := lookup_of_mem hg.names hx
    rw [hg.lookup] at hlookup
    exact hg.toListed.issued (List.mem_filter.mp (List.mem_of_head? hlookup)).1
  · obtain ⟨⟨⟨d, as⟩, x⟩, hx, h⟩ := List.mem_flatMap.mp h
    have hform := hg.constructions.mp (lookup_of_mem hg.constructionKeys hx)
    simp only [List.mem_cons] at h
    rcases h with rfl | rfl | h
    · exact hg.issued_of_parts hform List.mem_cons_self
    · exact issued_iff_form?.mpr ⟨_, hform⟩
    · exact hg.issued_of_parts hform (List.mem_cons_of_mem _ h)
  · obtain ⟨⟨e, x⟩, hx, h⟩ := List.mem_flatMap.mp h
    have hform := hg.arrays.mp (lookup_of_mem hg.arrayKeys hx)
    simp only [List.mem_cons, List.not_mem_nil, or_false] at h
    rcases h with rfl | rfl
    · exact hg.issued_of_parts hform List.mem_cons_self
    · exact issued_iff_form?.mpr ⟨_, hform⟩

/-- Exactly one type has a method. -/
theorem Consistent.existsUnique_owner (hg : Consistent g) {m : MethodId} (hm : g.HasMethod m) :
    ∃! ty, ∃ s, g.symbol? ty = some s ∧ m ∈ s.methods := by
  obtain ⟨ty, s, hs, hmem⟩ := hg.owned hm
  refine ⟨ty, ⟨s, hs, hmem⟩, ?_⟩
  rintro ty' ⟨s', hs', hmem'⟩
  exact hg.apart hs' hs hmem' hmem

/-! ## Members of declared types only -/

/-- The type `ty` gets a member. -/
def AddsMemberTo (g : TypeGraph) (ty : TypeId) (g' : TypeGraph) : Prop :=
  (∃ marker, g.addAttribute? ty marker = some g') ∨ (∃ base, g.addBase? ty base = some g') ∨
    ∃ m id, g.addMethod? ty m = some (id, g')

/-- Graphs that calls lead to if only declared types get members. -/
inductive DeclaredReachable : TypeGraph → Prop
  | empty : DeclaredReachable {}
  | core : DeclaredReachable core
  | step {g g' : TypeGraph} :
      DeclaredReachable g → Operation g g' → (∀ ty, AddsMemberTo g ty g' → ty ∈ g.declared) →
        DeclaredReachable g'

theorem DeclaredReachable.reachable (h : DeclaredReachable g) : Reachable g := by
  induction h with
  | empty => exact .empty
  | core => exact .core
  | step _ ho _ ih => exact .step ih ho

namespace AddsMemberTo

variable {ty : TypeId}

theorem addsMember (h : AddsMemberTo g ty g') : AddsMember g g' := by
  rcases h with ⟨_, h⟩ | ⟨_, h⟩ | ⟨_, _, h⟩
  · exact modify?_addsMember (by intro s; rfl) h
  · exact modify?_addsMember (by intro s; rfl) h
  · exact addMethod?_addsMember h

theorem symbol?_other (h : AddsMemberTo g ty g') {x : TypeId} (hx : x ≠ ty) :
    g'.symbol? x = g.symbol? x := by
  rcases h with ⟨_, h⟩ | ⟨_, h⟩ | ⟨_, _, h⟩
  · rw [(modify?_eq_some h).2, if_neg hx]
  · rw [(modify?_eq_some h).2, if_neg hx]
  · unfold addMethod? at h
    obtain ⟨g₁, h₁, e⟩ := Option.map_eq_some_iff.mp h
    cases e
    change g₁.symbol? x = _
    rw [(modify?_eq_some h₁).2, if_neg hx]

/-- A call that makes a new type adds no member. -/
theorem not_of_push {s : TypeSymbol} (htypes : g'.types = g.types.push s) :
    ¬ AddsMemberTo g ty g' := by
  intro h
  have hnew := h.addsMember.forms g.nextType
  rw [form?_push htypes, if_pos rfl, form?_nextType] at hnew
  cases hnew

end AddsMemberTo

theorem DeclaredReachable.declareAll (hg : DeclaredReachable g) {ds : List Declaration}
    (h : g.IssuedDeclarations ds) : DeclaredReachable (declareAll ds g) := by
  induction ds generalizing g with
  | nil => exact hg
  | cons d ds ih =>
    have hnone : ∀ ty, AddsMemberTo g ty (g.declare d).2 → ty ∈ g.declared :=
      fun _ hadds => absurd hadds (AddsMemberTo.not_of_push rfl)
    exact ih (.step hg (.declare d h.1) hnone) h.2

/-- A type that is not declared has no members. -/
def Bare (g : TypeGraph) : Prop :=
  ∀ ty s, g.symbol? ty = some s → ty ∉ g.declared →
    s.attributes = [] ∧ s.bases = [] ∧ s.methods = []

theorem Bare.push (hg : Bare g) {s : TypeSymbol} (htypes : g'.types = g.types.push s)
    (hdeclared : ∀ ty ∈ g.declared, ty ∈ g'.declared)
    (hnew : g.nextType ∈ g'.declared ∨ s.attributes = [] ∧ s.bases = [] ∧ s.methods = []) :
    Bare g' := by
  intro ty t ht hty
  rw [symbol?_push htypes] at ht
  split at ht
  · rename_i hnext
    cases ht
    subst hnext
    exact hnew.resolve_left hty
  · exact hg ty t ht fun hmem => hty (hdeclared ty hmem)

theorem Bare.declare (hg : Bare g) (d : Declaration) : Bare (g.declare d).2 :=
  hg.push rfl (fun _ h => List.mem_append_left _ h)
    (.inl (List.mem_append_right _ List.mem_cons_self))

theorem Internings.bare (h : Internings g g') (hg : Bare g) : Bare g' := by
  induction h with
  | refl => exact hg
  | tail _ hi ih =>
    cases hi with
    | construct _ _ _ _ _ => exact ih.push rfl (fun _ h => h) (.inr ⟨rfl, rfl, rfl⟩)
    | array _ _ => exact ih.push rfl (fun _ h => h) (.inr ⟨rfl, rfl, rfl⟩)

theorem AddsMemberTo.bare {ty : TypeId} (h : AddsMemberTo g ty g') (hty : ty ∈ g.declared)
    (hg : Bare g) : Bare g' := by
  intro x t ht hx
  rw [h.addsMember.declared] at hx
  have hne : x ≠ ty := by
    rintro rfl
    exact hx hty
  rw [h.symbol?_other hne] at ht
  exact hg x t ht hx

theorem Operation.bare (h : Operation g g')
    (htargets : ∀ ty, AddsMemberTo g ty g' → ty ∈ g.declared) (hcoherent : Coherent g)
    (hg : Bare g) : Bare g' := by
  have member : ∀ {ty}, AddsMemberTo g ty g' → Bare g' := fun hadds =>
    hadds.bare (htargets _ hadds) hg
  cases h with
  | declare d _ => exact hg.declare d
  | addAttribute _ _ h => exact member (.inl ⟨_, h⟩)
  | addBase _ _ h => exact member (.inr (.inl ⟨_, h⟩))
  | addMethod _ _ h => exact member (.inr (.inr ⟨_, _, h⟩))
  | construct htype has h => exact (construct_internings hcoherent htype has h).1.bare hg
  | constructNamed has h => exact (constructNamed_internings hcoherent has h).bare hg
  | arrayOf he h => exact (arrayOf_internings hcoherent he h).1.bare hg
  | resolve h => exact (resolve_internings _ hcoherent h).1.bare hg

private theorem bare_declareAll (hg : Bare g) (ds : List Declaration) : Bare (declareAll ds g) := by
  induction ds generalizing g with
  | nil => exact hg
  | cons d ds ih => exact ih (hg.declare d)

theorem DeclaredReachable.bare (h : DeclaredReachable g) : Bare g := by
  induction h with
  | empty => intro ty s hs; cases hs
  | core =>
    rw [core_eq_declareAll]
    exact bare_declareAll (by intro ty s hs; cases hs) _
  | step hg ho htargets ih => exact ho.bare htargets hg.reachable.coherent ih

/-! ## The invariant -/

/-- In every graph that calls lead to, the tables and lists agree with the types, no address is
stored that was not issued, and every method belongs to one type. As long as only declared types get
members, other types have none. -/
theorem Reachable.represented (hg : g.Reachable) :
    g.Consistent ∧ (∀ ty ∈ g.storedTypes, g.Issued ty) ∧
      (∀ m, g.HasMethod m → ∃! ty, ∃ s, g.symbol? ty = some s ∧ m ∈ s.methods) ∧
      (g.DeclaredReachable → g.Bare) :=
  ⟨hg.consistent, fun _ => hg.consistent.issued_of_stored,
    fun _ => hg.consistent.existsUnique_owner, DeclaredReachable.bare⟩

/-- A generic type and an interface with a method. -/
def counter : TypeGraph :=
  declareAll
    [{ head := { kind := .classType, nameSpace := "App", name := "Box", arity := 1 } },
     { head := { kind := .interface, nameSpace := "App", name := "IShop" }
       methods := [{ name := "Open", returns := ⟨0⟩ }] }] {}

/-- The same with a constructed type and an array of it. -/
def shelf : TypeGraph := (counter.withConstruction ⟨0⟩ [⟨1⟩]).withArray ⟨2⟩

private theorem shelf_declaredReachable : shelf.DeclaredReachable := by
  have hcounter : counter.DeclaredReachable := .declareAll .empty (by decide +kernel)
  have hconstruct : (construct ⟨0⟩ [⟨1⟩]).run counter =
      some (.ok ⟨2⟩, counter.withConstruction ⟨0⟩ [⟨1⟩]) := rfl
  have harray : (arrayOf ⟨2⟩).run (counter.withConstruction ⟨0⟩ [⟨1⟩]) =
      some (.ok ⟨3⟩, shelf) := rfl
  refine .step (.step hcounter (.construct ?_ ?_ hconstruct) ?_) (.arrayOf ?_ harray) ?_
  · decide +kernel
  · decide +kernel
  · exact fun _ hadds => absurd hadds (AddsMemberTo.not_of_push rfl)
  · decide +kernel
  · exact fun _ hadds => absurd hadds (AddsMemberTo.not_of_push rfl)

/-- The interface gets a method that returns the array. -/
theorem shelf_represented :
    ∃ shop, shelf.addMethod? ⟨1⟩ { name := "Stock", returns := ⟨3⟩ } = some (⟨1⟩, shop) ∧
      shop.Reachable ∧ shop.Consistent ∧ (∀ ty ∈ shop.storedTypes, shop.Issued ty) ∧
      (∀ m, shop.HasMethod m → ∃! ty, ∃ s, shop.symbol? ty = some s ∧ m ∈ s.methods) ∧
      shop.Bare := by
  have hadd : shelf.addMethod? ⟨1⟩ { name := "Stock", returns := ⟨3⟩ } = some (⟨1⟩, _) := rfl
  have hshop := DeclaredReachable.step shelf_declaredReachable
    (.addMethod (by decide +kernel) (by decide +kernel) hadd) fun ty hadds => by
      -- Only the interface differs afterwards.
      have hty : (⟨1⟩ : TypeId) = ty := by
        by_contra hne
        exact absurd (hadds.symbol?_other hne) (by decide +kernel)
      rw [← hty]
      decide +kernel
  obtain ⟨hconsistent, hstored, howner, hbare⟩ := Reachable.represented hshop.reachable
  exact ⟨_, hadd, hshop.reachable, hconsistent, hstored, howner, hbare hshop⟩

end HubBindings.TypeGraph
