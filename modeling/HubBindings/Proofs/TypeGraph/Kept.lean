import HubBindings.Proofs.TypeGraph.Renaming

/-!
What a graph answers about a type does not change when the graph grows.

* As long as types keep their forms, they keep their names and texts (`name?_kept`,
  `display?_kept`);
* a graph with more constructed types and arrays answers every question about the types that were
  there as before (`Internings.renaming`).
-/

namespace HubBindings.TypeGraph

open Sequencing

variable {g g' : TypeGraph} {ty : TypeId}

section Forms

variable (hg : Consistent g) (forms : ∀ {ty f}, g.form? ty = some f → g'.form? ty = some f)
  (hty : g.Issued ty)
include hg forms hty

omit hg in
theorem form?_kept : Both Eq (g.form? ty) (g'.form? ty) := by
  obtain ⟨f, hf, _⟩ := hty.form?
  exact ⟨f, f, hf, forms hf, rfl⟩

omit hg in
theorem definition?_kept : g'.definition? ty = g.definition? ty := by
  rw [definition?_eq_form?, definition?_eq_form?, (form?_kept forms hty).eq]

omit hg in
theorem arguments?_kept : g'.arguments? ty = g.arguments? ty := by
  rw [arguments?_eq_form?, arguments?_eq_form?, (form?_kept forms hty).eq]

omit hg in
theorem element?_kept : g'.element? ty = g.element? ty := by
  rw [element?_eq_form?, element?_eq_form?, (form?_kept forms hty).eq]

theorem head?_same : Both Eq (g.head? ty) (g'.head? ty) := by
  obtain ⟨h, hh, _⟩ := head?_answers hg hty
  exact ⟨h, h, hh, head?_kept forms hh, rfl⟩

private theorem peelWithin_kept {room room' : Nat} (hroom : ty.index < room)
    (hroom' : ty.index < room') :
    Both (fun p p' => p' = p ∧ g.Issued p.1) (g.peelWithin room ty) (g'.peelWithin room' ty) := by
  induction room generalizing room' ty with
  | zero => exact absurd hroom (Nat.not_lt_zero _)
  | succ room ih =>
    obtain ⟨room', rfl⟩ := Nat.exists_eq_succ_of_ne_zero (Nat.ne_zero_of_lt hroom')
    rw [peelWithin, peelWithin, element?_kept forms hty]
    obtain ⟨o, ho, hlt⟩ := element?_yields hg hty
    rw [ho]
    cases o with
    | none => exact .some ⟨rfl, hty⟩
    | some e =>
      have he : e.index < ty.index := hlt e rfl
      refine (ih (hty.of_lt he) (by omega) (by omega)).map fun p p' hp => ?_
      exact ⟨by rw [hp.1], hp.2⟩

private theorem displayWithin_kept {room room' : Nat} (hroom : ty.index < room)
    (hroom' : ty.index < room') :
    Both Eq (g.displayWithin room ty) (g'.displayWithin room' ty) := by
  induction room generalizing room' ty with
  | zero => exact absurd hroom (Nat.not_lt_zero _)
  | succ room ih =>
    obtain ⟨room', rfl⟩ := Nat.exists_eq_succ_of_ne_zero (Nat.ne_zero_of_lt hroom')
    obtain ⟨s, hs⟩ := issued_iff_symbol?.mp hty
    have hf : g.form? ty = some s.form := by rw [form?, hs, Option.map_some]
    obtain ⟨s', hs', hform⟩ := symbol?_of_form? (forms hf)
    have part : ∀ p ∈ s.form.parts,
        Both Eq (g.displayWithin room p) (g'.displayWithin room' p) := by
      intro p hp
      have hlt := hg.descends hf p hp
      exact ih (hty.of_lt hlt) (by omega) (by omega)
    simp only [displayWithin, hs, hs', Option.bind_eq_bind, Option.bind_some, hform]
    cases hform' : s.form with
    | declared h => exact .some rfl
    | array e =>
      rw [hform'] at part
      exact .bind (part e List.mem_cons_self) fun _ _ he => .some (by rw [he])
    | constructed d as =>
      rw [hform'] at part
      refine .bind (head?_same hg forms hty) fun h h' hh => ?_
      subst hh
      refine .ite (fun _ => .some rfl) fun _ => ?_
      have hsame : List.Forall₂ (fun a b => a = b ∧ a ∈ as) as as :=
        List.forall₂_same.mpr fun a ha => ⟨rfl, ha⟩
      have harguments : Both (List.Forall₂ Eq) (as.mapM (g.displayWithin room))
          (as.mapM (g'.displayWithin room')) :=
        .mapM hsame fun a b hab => hab.1 ▸ part a (List.mem_cons_of_mem _ hab.2)
      refine .bind harguments fun texts texts' htexts => .some ?_
      rw [List.forall₂_eq_eq_eq] at htexts
      rw [htexts]

variable (hty' : g'.Issued ty)
include hty'

theorem name?_kept : g'.name? ty = g.name? ty := by
  refine Both.eq (.bind (peelWithin_kept hg forms hty hty hty') fun p p' hp => ?_)
  obtain ⟨rfl, hroot⟩ := hp
  exact .bind (head?_same hg forms hroot) fun _ _ hh => .some (by rw [hh])

theorem nameSpace?_kept : g'.nameSpace? ty = g.nameSpace? ty := by
  refine Both.eq (.bind (peelWithin_kept hg forms hty hty hty') fun p p' hp => ?_)
  obtain ⟨rfl, hroot⟩ := hp
  exact .bind (head?_same hg forms hroot) fun _ _ hh => .some (by rw [hh])

theorem metadataName?_kept : g'.metadataName? ty = g.metadataName? ty := by
  refine Both.eq (.bind (peelWithin_kept hg forms hty hty hty') fun p p' hp => ?_)
  obtain ⟨rfl, hroot⟩ := hp
  have hdefinition : Both (fun d d' => d' = d ∧ g.Issued d) (g.definition? p'.1)
      (g'.definition? p'.1) := by
    obtain ⟨d, hd, hissued⟩ := definition?_yields hg hroot
    exact ⟨d, d, hd, (definition?_kept forms hroot).trans hd, rfl, hissued⟩
  refine .bind hdefinition fun d d' hd => ?_
  obtain ⟨rfl, hissued⟩ := hd
  exact .bind (head?_same hg forms hissued) fun _ _ hh => .some (by rw [hh])

theorem display?_kept : g'.display? ty = g.display? ty :=
  (displayWithin_kept hg forms hty hty hty').eq

end Forms

/-! ## More constructed types and arrays -/

theorem Internings.memberSymbol?_kept (h : Internings g g') (hg : Consistent g)
    (hty : g.Issued ty) : g'.memberSymbol? ty = g.memberSymbol? ty := by
  obtain ⟨d, hd, hissued⟩ := definition?_yields hg hty
  obtain ⟨s, hs⟩ := issued_iff_symbol?.mp hissued
  have hd' : g'.definition? ty = some d := by rw [definition?_kept h.changes.form?_kept hty, hd]
  simp [memberSymbol?, hd, hd', hs, h.symbol?_kept hs]

/-- More constructed types and arrays change no answer about the types that are there. -/
theorem Internings.renaming (h : Internings g g') (hg : Consistent g) : Renaming g g' id id := by
  have forms : ∀ {ty f}, g.form? ty = some f → g'.form? ty = some f := h.changes.form?_kept
  have issued : ∀ {ty}, g.Issued ty → g'.Issued ty := h.changes.issued
  have head : ∀ {ty}, g.Issued ty → g'.head? ty = g.head? ty := fun hty =>
    (head?_same hg forms hty).eq
  have member : ∀ {ty}, g.Issued ty → g'.memberSymbol? ty = g.memberSymbol? ty := fun hty =>
    h.memberSymbol?_kept hg hty
  obtain ⟨hmethods, hdeclared, hdefinitions⟩ := h.tables
  have method : ∀ m, g'.method? m = g.method? m := fun m => by rw [method?, hmethods, method?]
  have ordinary : g'.isOrdinary = g.isOrdinary := by
    funext m
    rw [isOrdinary, method, isOrdinary]
  have attributes : ∀ {ty}, g.Issued ty → g'.attributes? ty = g.attributes? ty := fun hty =>
    congrArg (Option.map _) (member hty)
  have bases : ∀ {ty}, g.Issued ty → g'.bases? ty = g.bases? ty := fun hty =>
    congrArg (Option.map _) (member hty)
  have methods : ∀ {ty}, g.Issued ty → g'.methods? ty = g.methods? ty := fun hty => by
    rw [methods?, member hty, ordinary, methods?]
  refine
    { issued := issued
      hasMethod := fun hm => by rwa [HasMethod, hmethods]
      injective := fun _ _ e => e
      injectiveMethods := fun _ _ e => e
      name := fun hty => name?_kept hg forms hty (issued hty)
      nameSpace := fun hty => nameSpace?_kept hg forms hty (issued hty)
      metadataName := fun hty => metadataName?_kept hg forms hty (issued hty)
      display := fun hty => display?_kept hg forms hty (issued hty)
      kind := fun hty => congrArg (Option.map _) (head hty)
      arity := fun hty => congrArg (Option.map _) (head hty)
      attributes := fun hty => by simp [attributes hty]
      bases := fun hty => by simp [bases hty]
      methods := fun hty => by simp [methods hty]
      definition := fun hty => by simp [definition?_kept forms hty]
      arguments := fun hty => by simp [arguments?_kept forms hty]
      element := fun hty => by simp [element?_kept forms hty]
      methodName := fun _ => by rw [id, method]
      parameters := fun _ => by simp [method]
      returns := fun _ => by simp [method]
      declared := fun scope => ?_
      lookup := fun name => ?_ }
  · rw [List.map_id]
    cases scope with
    | sourceAndReferenced => exact hdeclared
    | source =>
      simp only [declaredIn, hdeclared]
      refine List.filter_congr fun ty hty => ?_
      rw [isSource, head (hg.toListed.issued hty), isSource]
  · rw [TypeGraph.lookup, hdefinitions, Option.map_id, id, TypeGraph.lookup]

end HubBindings.TypeGraph
