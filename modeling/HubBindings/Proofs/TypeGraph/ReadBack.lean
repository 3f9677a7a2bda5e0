import HubBindings.Proofs.TypeGraph.Answers

/-!
References and the types they denote.

* `readBack?` turns a type back into a reference to it;
* `Denotes` says what a reference stands for in a graph. What a reference is resolved to is what it
  denotes (`resolve_denotes`), and stays so in every later graph (`Denotes.kept`);
* a type that a reference denotes reads back to this reference (`Denotes.readBack?`), and resolving
  the reference again finds the type (`Denotes.resolve_run`).
-/

namespace HubBindings.TypeGraph

open Sequencing

/-- The reference to a type, found in at most `room` levels. -/
def readBackWithin (g : TypeGraph) : (room : Nat) → TypeId → Option TypeRef
  | 0, _ => none
  | room + 1, ty => do
    match ← g.form? ty with
    | .array e => return .array (← readBackWithin g room e)
    | .constructed d as =>
      return .generic (← g.metadataName? d) (← as.mapM (readBackWithin g room))
    | .declared _ => return .named (← g.metadataName? ty)

/-- The reference to a type: arrays and constructed types by what they are made up of, other types
by their metadata names. -/
def readBack? (g : TypeGraph) (ty : TypeId) : Option TypeRef := g.readBackWithin g.typeCount ty

mutual

/-- A reference stands for a type. -/
inductive Denotes (g : TypeGraph) : TypeRef → TypeId → Prop
  | named {name : String} {ty : TypeId} : g.lookup name = some ty → Denotes g (.named name) ty
  | generic {name : String} {refs : List TypeRef} {d ty : TypeId} {as : List TypeId} :
      g.lookup name = some d → DenoteAll g refs as → g.form? ty = some (.constructed d as) →
        Denotes g (.generic name refs) ty
  | array {ref : TypeRef} {e ty : TypeId} :
      Denotes g ref e → g.form? ty = some (.array e) → Denotes g (.array ref) ty

/-- References stand for types, one for each. -/
inductive DenoteAll (g : TypeGraph) : List TypeRef → List TypeId → Prop
  | nil : DenoteAll g [] []
  | cons {ref : TypeRef} {ty : TypeId} {refs : List TypeRef} {tys : List TypeId} :
      Denotes g ref ty → DenoteAll g refs tys → DenoteAll g (ref :: refs) (ty :: tys)

end

variable {g g' : TypeGraph}

/-! ## Later graphs -/

theorem Change.lookup_kept (h : Change g g') {name : String} {ty : TypeId}
    (hl : g.lookup name = some ty) : g'.lookup name = some ty := by
  have same : g'.definitions = g.definitions → g'.lookup name = some ty := by
    intro e
    rw [lookup, e]
    exact hl
  cases h with
  | declare d _ =>
    change (if (g.lookup d.head.metadataName).isSome then g.definitions
      else g.definitions ++ [(d.head.metadataName, g.nextType)]).lookup name = some ty
    split
    · exact hl
    · rw [List.lookup_append, show g.definitions.lookup name = some ty from hl, Option.some_or]
  | addAttribute _ _ h => exact same (modify?_addsMember (by intro s; rfl) h).definitions
  | addBase _ _ h => exact same (modify?_addsMember (by intro s; rfl) h).definitions
  | addMethod _ _ h => exact same (addMethod?_addsMember h).definitions
  | construct _ _ _ _ _ => exact same rfl
  | array _ _ => exact same rfl

theorem Changes.lookup_kept (h : Changes g g') {name : String} {ty : TypeId}
    (hl : g.lookup name = some ty) : g'.lookup name = some ty := by
  induction h with
  | refl => exact hl
  | tail _ hc ih => exact hc.lookup_kept ih

mutual

theorem Denotes.kept (h : Changes g g') : ∀ {ref ty}, Denotes g ref ty → Denotes g' ref ty
  | _, _, .named hl => .named (h.lookup_kept hl)
  | _, _, .generic hl has hf =>
    .generic (h.lookup_kept hl) (DenoteAll.kept h has) (h.form?_kept hf)
  | _, _, .array he hf => .array (Denotes.kept h he) (h.form?_kept hf)

theorem DenoteAll.kept (h : Changes g g') : ∀ {refs tys}, DenoteAll g refs tys →
    DenoteAll g' refs tys
  | _, _, .nil => .nil
  | _, _, .cons hty htys => .cons (Denotes.kept h hty) (DenoteAll.kept h htys)

end

/-! ## Resolving -/

/-- A name leads to a declaration, which is its own definition. -/
theorem Coherent.definition?_of_lookup (hg : Coherent g) {name : String} {d : TypeId}
    (hl : g.lookup name = some d) : g.definition? d = some d := by
  obtain ⟨h, hf, _⟩ := hg.lookup hl
  rw [definition?_eq_form?, hf]
  rfl

/-- A constructed type has the definition and the arguments that were asked for. -/
theorem construct_form? (hg : Layered g) {type d ty : TypeId} {as : List TypeId}
    (hd : g.definition? type = some d) (h : (construct type as).run g = some (.ok ty, g')) :
    g'.form? ty = some (.constructed d as) := by
  obtain ⟨d', arity, hd', _, hcases⟩ := construct_cases h
  cases hd.symm.trans hd'
  rcases hcases with ⟨_, _, _, e, _⟩ | ⟨ty', _, hfound, e, rfl⟩ | ⟨_, _, e, rfl⟩
  · cases e
  · cases e
    exact hg.constructions.mp hfound
  · cases e
    rw [form?_push_new (g := g) rfl]

private theorem construct_denotes (hg : Changes {} g) {name : String} {d ty : TypeId}
    {refs : List TypeRef} {as : List TypeId} (hl : g.lookup name = some d)
    (has : DenoteAll g refs as) (hd : g.Issued d) (hissued : ∀ a ∈ as, g.Issued a)
    (h : (construct d as).run g = some (.ok ty, g')) : Denotes g' (.generic name refs) ty := by
  have hcoherent := hg.coherent .empty
  have hchanges := (construct_internings hcoherent hd hissued h).1.changes
  have hform := construct_form? (hg.consistent .empty).toLayered
    (hcoherent.definition?_of_lookup hl) h
  exact .generic (hchanges.lookup_kept hl) (has.kept hchanges) hform

private theorem arrayOf_denotes (hg : Changes {} g) {ref : TypeRef} {e ty : TypeId}
    (he : Denotes g ref e) (hissued : g.Issued e) (h : (arrayOf e).run g = some (.ok ty, g')) :
    Denotes g' (.array ref) ty := by
  have hchanges := (arrayOf_internings (hg.coherent .empty) hissued h).1.changes
  have hform : g'.form? ty = some (.array e) := by
    rcases arrayOf_cases h with ⟨ty', hfound, e, rfl⟩ | ⟨_, e, rfl⟩
    · cases e
      exact (hg.consistent .empty).arrays.mp hfound
    · cases e
      rw [form?_push_new (g := g) rfl]
  exact .array (he.kept hchanges) hform

mutual

theorem resolve_denotes : ∀ (ref : TypeRef) {g g' : TypeGraph} {ty : TypeId}, Changes {} g →
    ref.resolve.run g = some (.ok ty, g') → Denotes g' ref ty
  | .named name, g, g', ty, hg, h => by
    rw [TypeRef.resolve] at h
    obtain ⟨rfl, hl⟩ := require_cases h
    exact .named (hl ty rfl)
  | .generic name refs, g, g', ty, hg, h => by
    rw [TypeRef.resolve] at h
    obtain ⟨d, g₁, hd, h₁⟩ := run_bind_ok_iff.mp h
    obtain ⟨as, g₂, has, h₂⟩ := run_bind_ok_iff.mp h₁
    obtain ⟨rfl, hl⟩ := require_cases hd
    have hdissued := (require_issued (hg.coherent .empty) hd).2 d rfl
    obtain ⟨hinternings, hissued⟩ := resolveAll_internings refs (hg.coherent .empty) has
    have hchanges := hinternings.changes
    exact construct_denotes (hg.trans hchanges) (hchanges.lookup_kept (hl d rfl))
      (resolveAll_denotes refs hg has) (hchanges.issued hdissued) (hissued as rfl) h₂
  | .array ref, g, g', ty, hg, h => by
    rw [TypeRef.resolve] at h
    obtain ⟨e, g₁, he, h₁⟩ := run_bind_ok_iff.mp h
    obtain ⟨hinternings, hissued⟩ := resolve_internings ref (hg.coherent .empty) he
    exact arrayOf_denotes (hg.trans hinternings.changes) (resolve_denotes ref hg he) (hissued e rfl)
      h₁

private theorem resolveAll_denotes : ∀ (refs : List TypeRef) {g g' : TypeGraph} {tys : List TypeId},
    Changes {} g → (TypeRef.resolveAll refs).run g = some (.ok tys, g') → DenoteAll g' refs tys
  | [], g, g', tys, hg, h => by
    rw [TypeRef.resolveAll] at h
    cases h
    exact .nil
  | ref :: refs, g, g', tys, hg, h => by
    rw [TypeRef.resolveAll] at h
    obtain ⟨ty, g₁, hty, h₁⟩ := run_bind_ok_iff.mp h
    obtain ⟨rest, g₂, hrest, h₂⟩ := run_bind_ok_iff.mp h₁
    cases h₂
    have hchanges := (resolve_internings ref (hg.coherent .empty) hty).1.changes
    have hg₁ : Changes {} g₁ := hg.trans hchanges
    have hchanges' := (resolveAll_internings refs (hg₁.coherent .empty) hrest).1.changes
    exact .cons ((resolve_denotes ref hg hty).kept hchanges') (resolveAll_denotes refs hg₁ hrest)

end

/-! ## Resolving again -/

theorem require_run {name : String} {ty : TypeId} (hl : g.lookup name = some ty) :
    (require name).run g = some (.ok ty, g) := by
  rw [require, run_get_bind, hl]
  rfl

private theorem construct_run (hg : Consistent g) {d ty : TypeId} {as : List TypeId}
    (hd : g.definition? d = some d) (hf : g.form? ty = some (.constructed d as)) :
    (construct d as).run g = some (.ok ty, g) := by
  rw [construct, run_get_bind, run_lift_bind, hd, Option.bind_some, run_lift_bind, hg.arity hf,
    Option.bind_some, if_neg (by simp), hg.constructions.mpr hf]
  rfl

private theorem arrayOf_run (hg : Consistent g) {e ty : TypeId}
    (hf : g.form? ty = some (.array e)) :
    (arrayOf e).run g = some (.ok ty, g) := by
  rw [arrayOf, run_get_bind, hg.arrays.mpr hf]
  rfl

mutual

theorem Denotes.resolve_run (hg : Changes {} g) : ∀ {ref ty}, Denotes g ref ty →
    ref.resolve.run g = some (.ok ty, g)
  | _, _, .named hl => by
    rw [TypeRef.resolve]
    exact require_run hl
  | _, _, .generic hl has hf => by
    rw [TypeRef.resolve]
    refine run_bind_ok_iff.mpr ⟨_, _, require_run hl, ?_⟩
    refine run_bind_ok_iff.mpr ⟨_, _, DenoteAll.resolveAll_run hg has, ?_⟩
    exact construct_run (hg.consistent .empty) ((hg.coherent .empty).definition?_of_lookup hl) hf
  | _, _, .array he hf => by
    rw [TypeRef.resolve]
    refine run_bind_ok_iff.mpr ⟨_, _, Denotes.resolve_run hg he, ?_⟩
    exact arrayOf_run (hg.consistent .empty) hf

theorem DenoteAll.resolveAll_run (hg : Changes {} g) : ∀ {refs tys}, DenoteAll g refs tys →
    (TypeRef.resolveAll refs).run g = some (.ok tys, g)
  | _, _, .nil => by
    rw [TypeRef.resolveAll]
    rfl
  | _, _, .cons hty htys => by
    rw [TypeRef.resolveAll]
    refine run_bind_ok_iff.mpr ⟨_, _, Denotes.resolve_run hg hty, ?_⟩
    exact run_bind_ok_iff.mpr ⟨_, _, DenoteAll.resolveAll_run hg htys, rfl⟩

end

/-! ## Reading back -/

theorem metadataName?_of_lookup (hg : Coherent g) {name : String} {ty : TypeId}
    (hl : g.lookup name = some ty) : g.metadataName? ty = some name := by
  obtain ⟨h, hf, rfl⟩ := hg.lookup hl
  exact metadataName?_of_declared hf

mutual

theorem Denotes.readBackWithin (hg : Changes {} g) : ∀ {ref ty}, Denotes g ref ty →
    ∀ room : Nat, ty.index < room → g.readBackWithin room ty = some ref
  | _, _, .named hl, room, hroom => by
    obtain ⟨room, rfl⟩ := Nat.exists_eq_succ_of_ne_zero (Nat.ne_zero_of_lt hroom)
    obtain ⟨h, hf, _⟩ := (hg.coherent .empty).lookup hl
    simp [TypeGraph.readBackWithin, hf, metadataName?_of_lookup (hg.coherent .empty) hl]
  | _, _, .generic hl has hf, room, hroom => by
    obtain ⟨room, rfl⟩ := Nat.exists_eq_succ_of_ne_zero (Nat.ne_zero_of_lt hroom)
    have harguments := DenoteAll.readBackWithin hg has room fun a ha => by
      have hlt := (hg.consistent .empty).descends hf a (List.mem_cons_of_mem _ ha)
      omega
    simp [TypeGraph.readBackWithin, hf, metadataName?_of_lookup (hg.coherent .empty) hl,
      harguments]
  | _, _, .array he hf, room, hroom => by
    obtain ⟨room, rfl⟩ := Nat.exists_eq_succ_of_ne_zero (Nat.ne_zero_of_lt hroom)
    have hlt := (hg.consistent .empty).descends hf _ List.mem_cons_self
    simp [TypeGraph.readBackWithin, hf, Denotes.readBackWithin hg he room (by omega)]

theorem DenoteAll.readBackWithin (hg : Changes {} g) : ∀ {refs tys}, DenoteAll g refs tys →
    ∀ room : Nat, (∀ ty ∈ tys, ty.index < room) → tys.mapM (g.readBackWithin room) = some refs
  | _, _, .nil, _, _ => rfl
  | _, _, .cons hty htys, room, hroom => by
    have hfirst := Denotes.readBackWithin hg hty room (hroom _ List.mem_cons_self)
    have hrest := DenoteAll.readBackWithin hg htys room fun a ha =>
      hroom a (List.mem_cons_of_mem _ ha)
    rw [List.mapM_cons, hfirst, hrest]
    rfl

end

theorem Denotes.issued (hg : Coherent g) {ref : TypeRef} {ty : TypeId} (h : Denotes g ref ty) :
    g.Issued ty := by
  cases h with
  | named hl =>
    obtain ⟨h, hf, _⟩ := hg.lookup hl
    exact issued_iff_form?.mpr ⟨_, hf⟩
  | generic _ _ hf => exact issued_iff_form?.mpr ⟨_, hf⟩
  | array _ hf => exact issued_iff_form?.mpr ⟨_, hf⟩

/-- A type reads back to the reference that denotes it. -/
theorem Denotes.readBack? (hg : Changes {} g) {ref : TypeRef} {ty : TypeId}
    (h : Denotes g ref ty) : g.readBack? ty = some ref :=
  h.readBackWithin hg g.typeCount (h.issued (hg.coherent .empty))

/-! ## After more calls -/

/-- A graph that calls lead to from another. -/
abbrev Later : TypeGraph → TypeGraph → Prop := Relation.ReflTransGen Operation

theorem Later.changes (h : Later g g') (hg : Coherent g) : Changes g g' := by
  induction h with
  | refl => exact .refl
  | tail _ ho ih => exact ih.trans (ho.changes (ih.coherent hg))

/-- What a reference was resolved to reads back to it and is found again, in every later graph. -/
theorem resolve_stays {later : TypeGraph} {ref : TypeRef} {ty : TypeId} (hg : g.Reachable)
    (hrun : ref.resolve.run g = some (.ok ty, g')) (hlater : Later g' later) :
    later.readBack? ty = some ref ∧ ref.resolve.run later = some (.ok ty, later) := by
  have hg' : g'.Reachable := .step hg (.resolve hrun)
  have hchanges := hlater.changes hg'.coherent
  have hdenotes := (resolve_denotes ref hg.changes hrun).kept hchanges
  have hlater' : Changes {} later := hg'.changes.trans hchanges
  exact ⟨hdenotes.readBack? hlater', hdenotes.resolve_run hlater'⟩

end HubBindings.TypeGraph
