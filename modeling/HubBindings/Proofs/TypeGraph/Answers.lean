import HubBindings.Proofs.TypeGraph.Consistent

/-!
Questions about issued addresses have answers, and addresses in the answers are issued.

What a type is made up of has smaller addresses than the type (`Layered.descends`), so a search that
goes down a type needs no more steps than the type has addresses below it.
-/

namespace HubBindings.TypeGraph

open Sequencing

variable {g : TypeGraph} {ty : TypeId}

/-- Types with a smaller address than an issued one are issued. -/
theorem Issued.of_lt {part : TypeId} (hty : g.Issued ty) (h : part.index < ty.index) :
    g.Issued part := Nat.lt_trans h hty

theorem Issued.form? (hty : g.Issued ty) : Answers (g.form? ty) := by
  obtain ⟨f, hf⟩ := issued_iff_form?.mp hty
  exact ⟨f, hf, trivial⟩

section Issued

variable (hg : Consistent g) (hty : g.Issued ty)
include hg hty

/-! ## Parts of a type -/

theorem arguments?_yields : Yields (fun as => ∀ a ∈ as, a.index < ty.index) (g.arguments? ty) := by
  rw [arguments?_eq_form?]
  obtain ⟨f, hf, _⟩ := hty.form?
  rw [hf]
  refine .some fun a ha => hg.descends hf a ?_
  cases f with
  | declared _ => cases ha
  | constructed _ as => exact List.mem_cons_of_mem _ ha
  | array _ => cases ha

theorem element?_yields : Yields (fun o => ∀ e ∈ o, e.index < ty.index) (g.element? ty) := by
  rw [element?_eq_form?]
  obtain ⟨f, hf, _⟩ := hty.form?
  rw [hf]
  refine .some fun e he => hg.descends hf e ?_
  cases f with
  | declared _ => cases he
  | constructed _ _ => cases he
  | array _ =>
    cases he
    exact List.mem_cons_self

theorem firstArgument?_yields :
    Yields (fun o => ∀ a ∈ o, a.index < ty.index) (g.firstArgument? ty) :=
  (arguments?_yields hg hty).map fun _ has a ha => has a (List.mem_of_head? ha)

theorem definition?_yields : Yields g.Issued (g.definition? ty) := by
  rw [definition?_eq_form?]
  obtain ⟨f, hf, _⟩ := hty.form?
  rw [hf]
  refine .some ?_
  cases f with
  | declared _ => exact hty
  | constructed d _ => exact hty.of_lt (hg.descends hf d List.mem_cons_self)
  | array _ => exact hty

theorem head?_answers : Answers (g.head? ty) := by
  obtain ⟨s, hs⟩ := issued_iff_symbol?.mp hty
  simp only [head?, hs]
  cases hform : s.form with
  | declared h => exact ⟨_, rfl, trivial⟩
  | array e => exact ⟨_, rfl, trivial⟩
  | constructed d as =>
    have hf : g.form? ty = some (.constructed d as) := by rw [form?, hs, Option.map_some, hform]
    have hd : g.Issued d := hty.of_lt (hg.descends hf d List.mem_cons_self)
    obtain ⟨origin, ho⟩ := issued_iff_symbol?.mp hd
    exact ⟨_, Option.map_eq_some_iff.mpr ⟨origin, ho, rfl⟩, trivial⟩

theorem arity?_answers : Answers (g.arity? ty) := (head?_answers hg hty).map fun _ _ => trivial

theorem kind?_answers : Answers (g.kind? ty) := (head?_answers hg hty).map fun _ _ => trivial

/-! ## Names -/

private theorem peelWithin_yields {room : Nat} (hroom : ty.index < room) :
    Yields (fun p => g.Issued p.1) (g.peelWithin room ty) := by
  induction room generalizing ty with
  | zero => exact absurd hroom (Nat.not_lt_zero _)
  | succ room ih =>
    rw [peelWithin]
    obtain ⟨o, ho, hlt⟩ := element?_yields hg hty
    rw [ho]
    cases o with
    | none => exact .some hty
    | some e =>
      have he : e.index < ty.index := hlt e rfl
      exact (ih (hty.of_lt he) (by omega)).map fun _ h => h

private theorem peel?_yields : Yields (fun p => g.Issued p.1) (g.peel? ty) :=
  peelWithin_yields hg hty hty

theorem name?_answers : Answers (g.name? ty) :=
  .bind (peel?_yields hg hty) fun _ _ hroot =>
    .bind (head?_answers hg hroot) fun _ _ _ => .some trivial

theorem nameSpace?_answers : Answers (g.nameSpace? ty) :=
  .bind (peel?_yields hg hty) fun _ _ hroot =>
    .bind (head?_answers hg hroot) fun _ _ _ => .some trivial

theorem metadataName?_answers : Answers (g.metadataName? ty) :=
  .bind (peel?_yields hg hty) fun _ _ hroot =>
    .bind (definition?_yields hg hroot) fun _ _ hd =>
      .bind (head?_answers hg hd) fun _ _ _ => .some trivial

private theorem displayWithin_answers {room : Nat} (hroom : ty.index < room) :
    Answers (g.displayWithin room ty) := by
  induction room generalizing ty with
  | zero => exact absurd hroom (Nat.not_lt_zero _)
  | succ room ih =>
    obtain ⟨s, hs⟩ := issued_iff_symbol?.mp hty
    have hf : g.form? ty = some s.form := by rw [form?, hs, Option.map_some]
    have part : ∀ p ∈ s.form.parts, Answers (g.displayWithin room p) := by
      intro p hp
      have hlt := hg.descends hf p hp
      exact ih (hty.of_lt hlt) (by omega)
    rw [displayWithin]
    refine .bind (P := fun t => t = s) ⟨s, hs, rfl⟩ fun t _ ht => ?_
    subst ht
    cases hform : t.form with
    | declared h => exact .some trivial
    | array e =>
      rw [hform] at part
      exact .bind (part e List.mem_cons_self) fun _ _ _ => .some trivial
    | constructed d as =>
      rw [hform] at part
      refine .bind (head?_answers hg hty) fun h _ _ => ?_
      split
      · exact .some trivial
      · exact .bind (.mapM fun a ha => part a (List.mem_cons_of_mem _ ha)) fun _ _ _ =>
          .some trivial

theorem display?_answers : Answers (g.display? ty) := displayWithin_answers hg hty hty

/-! ## Members -/

private theorem memberSymbol?_yields :
    Yields (fun s => ∃ d, g.symbol? d = some s) (g.memberSymbol? ty) := by
  refine .bind (definition?_yields hg hty) fun d _ hd => ?_
  obtain ⟨s, hs⟩ := issued_iff_symbol?.mp hd
  exact ⟨s, hs, d, hs⟩

theorem hasAttribute?_answers (marker : TypeId) : Answers (g.hasAttribute? ty marker) := by
  have hfragments : Answers (g.fragments? ty) := by
    refine .bind (definition?_yields hg hty) fun d _ hd => ?_
    refine .bind (metadataName?_answers hg hd) fun n _ _ => ?_
    cases g.declaredAs n with
    | nil => exact .some trivial
    | cons first rest => exact .some trivial
  exact hfragments.map fun _ _ => trivial

theorem attributes?_yields : Yields (fun as => ∀ a ∈ as, g.Issued a) (g.attributes? ty) :=
  (memberSymbol?_yields hg hty).map fun _ ⟨_, hs⟩ => hg.attributes hs

theorem bases?_yields : Yields (fun bs => ∀ b ∈ bs, g.Issued b) (g.bases? ty) :=
  (memberSymbol?_yields hg hty).map fun _ ⟨_, hs⟩ => hg.bases hs

theorem methods?_yields : Yields (fun ms => ∀ m ∈ ms, g.HasMethod m) (g.methods? ty) :=
  (memberSymbol?_yields hg hty).map fun _ ⟨_, hs⟩ m hm =>
    hg.methods hs m (List.mem_filter.mp hm).1

/-! ## Tasks and streams -/

theorem isConstructedFrom?_answers (d : Option TypeId) : Answers (g.isConstructedFrom? ty d) := by
  cases d with
  | none => exact .some trivial
  | some d =>
    refine .bind (arguments?_yields hg hty) fun _ _ _ => ?_
    exact .bind (definition?_yields hg hty) fun _ _ _ => .some trivial

theorem isStream?_answers (w : WellKnown) : Answers (w.isStream? g ty) := by
  refine .bind (isConstructedFrom?_answers hg hty _) fun b _ _ => ?_
  cases b with
  | true => exact .some trivial
  | false => exact isConstructedFrom?_answers hg hty _

end Issued

theorem Consistent.issued_of_lookup (hg : Consistent g) {name : String}
    (h : g.lookup name = some ty) : g.Issued ty := by
  rw [hg.lookup] at h
  exact hg.toListed.issued (List.mem_filter.mp (List.mem_of_head? h)).1

theorem Consistent.issued_of_declaredIn (hg : Consistent g) {scope : Scope}
    (h : ty ∈ g.declaredIn scope) : g.Issued ty :=
  hg.toListed.issued (mem_declared_of_mem_declaredIn h)

end HubBindings.TypeGraph
