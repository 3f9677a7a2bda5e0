import HubBindings.Proofs.TypeGraph.Stability

/-!
A graph with one more declaration, under a metadata name that no type has. The types that were there
are embedded in it (`Fresh.embedding`): the new type is not a fragment of any of them, so it has no
part in their attributes and methods. Names lead where they led before, and the new type comes last
of the declarations.
-/

namespace HubBindings.TypeGraph

open Sequencing

variable {g : TypeGraph} {d : Declaration}

/-- A declaration over issued addresses, under a metadata name that no type of the graph has. -/
structure Fresh (g : TypeGraph) (d : Declaration) : Prop where
  issued : g.IssuedDeclaration d
  unused : ∀ ty, g.Issued ty → g.metadataName? ty ≠ some d.head.metadataName

theorem declare_lookup (hg : Consistent g) (hd : g.IssuedDeclaration d) {name : String}
    (hne : name ≠ d.head.metadataName) : (g.declare d).2.lookup name = g.lookup name := by
  rw [(declare_listed hg.toListed d hd).lookup, declare_declaredAs hg.toListed hd,
    if_neg (Ne.symm hne), List.append_nil, ← hg.lookup]

/-- A declaration adds at most one type to a scope, at the end. -/
theorem declare_declaredIn (hg : Consistent g) (hd : g.IssuedDeclaration d) (scope : Scope) :
    ∃ new, new.Sublist [g.nextType] ∧
      (g.declare d).2.declaredIn scope = g.declaredIn scope ++ new := by
  cases scope with
  | sourceAndReferenced => exact ⟨[g.nextType], List.Sublist.refl _, rfl⟩
  | source =>
    have hsource : ∀ ty ∈ g.declared, (g.declare d).2.isSource ty = g.isSource ty := by
      intro ty hty
      have hhead := head?_same hg (Change.declare d hd).form?_kept (hg.toListed.issued hty)
      rw [isSource, hhead.eq, isSource]
    refine ⟨[g.nextType].filter (g.declare d).2.isSource, List.filter_sublist, ?_⟩
    show (g.declared ++ [g.nextType]).filter (g.declare d).2.isSource = _
    rw [List.filter_append, List.filter_congr hsource]
    rfl

namespace Fresh

variable (h : g.Fresh d) (hg : Consistent g)
include h hg

/-- A declaration attaches nothing to a type that was there. -/
theorem members_kept {ty : TypeId} (hty : g.Issued ty) :
    (g.declare d).2.attributes? ty = g.attributes? ty ∧
      (g.declare d).2.bases? ty = g.bases? ty ∧ (g.declare d).2.methods? ty = g.methods? ty := by
  obtain ⟨origin, horigin, _⟩ := definition?_yields hg hty
  obtain ⟨hattributes, hbases, hmethods⟩ := (Edit.Effect.declared h.issued).appends hg hty horigin
  refine ⟨?_, ?_, ?_⟩
  · exact (hattributes.mono fun _ _ _ _ e => (e.trans (List.append_nil _)).symm).eq
  · exact (hbases.mono fun _ _ _ _ e => (e.trans (List.append_nil _)).symm).eq
  · exact (hmethods.mono fun _ _ _ _ e => (e.trans (List.append_nil _)).symm).eq

/-- No type that was there gets a further fragment. -/
theorem declaredAs_kept {ty : TypeId} (hty : g.Issued ty) {name : String}
    (hname : g.metadataName? ty = some name) :
    (g.declare d).2.declaredAs name = g.declaredAs name := by
  have hne : d.head.metadataName ≠ name := fun e => h.unused ty hty (e ▸ hname)
  rw [declare_declaredAs hg.toListed h.issued, if_neg hne, List.append_nil]

/-- The types that were there keep all answers. -/
theorem embedding : Embedding g (g.declare d).2 id id := by
  have hchanges : Changes g (g.declare d).2 := .single (.declare d h.issued)
  have same : ∀ {ty}, g.Issued ty → SameType g (g.declare d).2 ty := fun hty =>
    hchanges.sameType hg hty
  have all : ∀ {tys : List TypeId}, (∀ ty ∈ tys, g.Issued ty) →
      List.Forall₂ (Renamed g id) tys tys := fun htys =>
    List.forall₂_same.mpr fun ty hty => ⟨htys ty hty, rfl⟩
  refine
    { issued := hchanges.issued
      biUnique := ⟨fun _ _ _ a b => a.2.trans b.2.symm, fun _ _ _ a b => a.2.symm.trans b.2⟩
      biUnique_methods :=
        ⟨fun _ _ _ a b => a.2.trans b.2.symm, fun _ _ _ a b => a.2.symm.trans b.2⟩
      name? := fun hty => hty.2 ▸ (same hty.1).name
      nameSpace? := fun hty => hty.2 ▸ (same hty.1).nameSpace
      metadataName? := fun hty => hty.2 ▸ (same hty.1).metadataName
      display? := fun hty => hty.2 ▸ (same hty.1).display
      kind? := fun hty => hty.2 ▸ (same hty.1).kind
      arity? := fun hty => hty.2 ▸ (same hty.1).arity
      definition? := ?_, attributes? := ?_, bases? := ?_, methods? := ?_, arguments? := ?_
      element? := ?_, method? := ?_, declaredAs := ?_ }
  · rintro ty _ ⟨hty, rfl⟩
    obtain ⟨origin, horigin, hissued⟩ := definition?_yields hg hty
    exact ⟨origin, origin, horigin, (same hty).definition.eq.trans horigin, hissued, rfl⟩
  · rintro ty _ ⟨hty, rfl⟩
    obtain ⟨as, has, hissued⟩ := attributes?_yields hg hty
    exact ⟨as, as, has, (h.members_kept hg hty).1.trans has, all hissued⟩
  · rintro ty _ ⟨hty, rfl⟩
    obtain ⟨bs, hbs, hissued⟩ := bases?_yields hg hty
    exact ⟨bs, bs, hbs, (h.members_kept hg hty).2.1.trans hbs, all hissued⟩
  · rintro ty _ ⟨hty, rfl⟩
    obtain ⟨ms, hms, hissued⟩ := methods?_yields hg hty
    exact ⟨ms, ms, hms, (h.members_kept hg hty).2.2.trans hms,
      List.forall₂_same.mpr fun m hm => ⟨hissued m hm, rfl⟩⟩
  · rintro ty _ ⟨hty, rfl⟩
    obtain ⟨as, has, hlt⟩ := arguments?_yields hg hty
    exact ⟨as, as, has, (same hty).arguments.eq.trans has,
      List.forall₂_same.mpr fun a ha => ⟨⟨hty.of_lt (hlt a ha), rfl⟩, hlt a ha, hlt a ha⟩⟩
  · rintro ty _ ⟨hty, rfl⟩
    obtain ⟨o, ho, hlt⟩ := element?_yields hg hty
    refine ⟨o, o, ho, (same hty).element.eq.trans ho, ?_⟩
    cases o with
    | none => exact .none
    | some e => exact .some ⟨⟨hty.of_lt (hlt e rfl), rfl⟩, hlt e rfl, hlt e rfl⟩
  · rintro m _ ⟨hm, rfl⟩
    obtain ⟨x, hx⟩ := hasMethod_iff.mp hm
    obtain ⟨hreturns, hparameters⟩ := hg.signatures hx
    exact ⟨x, x, hx, hchanges.method?_kept hx, rfl,
      List.forall₂_same.mpr fun p hp => ⟨rfl, hparameters p hp, rfl⟩, hreturns, rfl⟩
  · intro ty name hty hname
    rw [h.declaredAs_kept hg hty hname]
    exact all fun ty' hty' => hg.toListed.issued (List.mem_filter.mp hty').1

end Fresh

end HubBindings.TypeGraph
