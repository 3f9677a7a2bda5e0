import HubBindings.Proofs.Loading
import HubBindings.Proofs.TypeGraph.Inheritance

/-!
Members of the types of loaded graphs.

A manifest gives members to the types it declares and to no others, and its bases are what
references denote. So in a loaded graph types that are not declared have no members, and no base is
constructed from an array (`Manifest.load_tidy`). Of graphs in general neither is true, as members
can be added to any type and arrays be used as definitions.
-/

namespace HubBindings

open Sequencing TypeGraph

variable {g g' : TypeGraph} {ty : TypeId}

namespace TypeGraph

/-! ## Bases that stay -/

/-- A type is not constructed from an array later on. -/
theorem ConstructedFromArray.of_changes (h : Changes g g') (hg : Consistent g) (hty : g.Issued ty)
    (harray : g'.ConstructedFromArray ty) : g.ConstructedFromArray ty := by
  have hform : ∀ {x f}, g.Issued x → g'.form? x = some f → g.form? x = some f := by
    intro x f hx hf
    obtain ⟨f', hf'⟩ := issued_iff_form?.mp hx
    cases (h.form?_kept hf').symm.trans hf
    exact hf'
  obtain ⟨d, as, e, hf, hd⟩ := harray
  have hty' := hform hty hf
  have hissued : g.Issued d := hty.of_lt (hg.descends hty' d List.mem_cons_self)
  exact ⟨d, as, e, hty', hform hissued hd⟩

/-- What a reference denotes is not constructed from an array. -/
theorem Denotes.not_constructedFromArray (hg : Coherent g) {ref : TypeRef}
    (h : g.Denotes ref ty) : ¬ g.ConstructedFromArray ty := by
  rintro ⟨d, as, e, hf, hd⟩
  cases h with
  | named hl =>
    obtain ⟨head, hhead, _⟩ := hg.lookup hl
    cases hf.symm.trans hhead
  | generic hl _ hf' =>
    obtain ⟨head, hhead, _⟩ := hg.lookup hl
    cases hf.symm.trans hf'
    cases hd.symm.trans hhead
  | array _ hf' => cases hf.symm.trans hf'

theorem PlainBases.kept (hbases : g.PlainBases) (hg : Consistent g) (h : Changes g g')
    (hnew : ∀ {ty s'}, g'.symbol? ty = some s' → ∀ b ∈ s'.bases,
      (∃ s, g.symbol? ty = some s ∧ b ∈ s.bases) ∨ ¬ g'.ConstructedFromArray b) :
    g'.PlainBases := by
  intro ty s' hs' b hb
  rcases hnew hs' b hb with ⟨s, hs, hb⟩ | hplain
  · intro harray
    exact hbases ty s hs b hb (harray.of_changes h hg (hg.bases hs b hb))
  · exact hplain

private theorem symbol?_old_of_push {new s : TypeSymbol} (htypes : g'.types = g.types.push new)
    (hnew : new.bases = []) (hs : g'.symbol? ty = some s) :
    g.symbol? ty = some s ∨ s.bases = [] := by
  rw [symbol?_push htypes] at hs
  split at hs
  · cases hs
    exact .inr hnew
  · exact .inl hs

/-- Constructed types and arrays are new without bases. -/
theorem Internings.symbol?_old (h : Internings g g') {s : TypeSymbol}
    (hs : g'.symbol? ty = some s) : g.symbol? ty = some s ∨ s.bases = [] := by
  induction h with
  | refl => exact .inl hs
  | tail _ hi ih =>
    cases hi with
    | construct _ _ _ _ _ => exact (symbol?_old_of_push rfl rfl hs).elim ih .inr
    | array _ _ => exact (symbol?_old_of_push rfl rfl hs).elim ih .inr

/-! ## Tidy graphs -/

/-- Types that are not declared have no members, and no base is constructed from an array. -/
structure Tidy (g : TypeGraph) : Prop where
  changes : Changes {} g
  bare : g.Bare
  bases : g.PlainBases

namespace Tidy

theorem consistent (hg : g.Tidy) : Consistent g := hg.changes.consistent .empty

theorem coherent (hg : g.Tidy) : Coherent g := hg.changes.coherent .empty

theorem declare (hg : g.Tidy) (h : TypeHead) : (g.declare { head := h }).2.Tidy := by
  have hchange : Change g (g.declare { head := h }).2 := .declare _ ⟨by simp, by simp, by simp⟩
  refine ⟨hg.changes.tail hchange, hg.bare.declare _, ?_⟩
  refine hg.bases.kept hg.consistent (.single hchange) fun {ty s'} hs' b hb => ?_
  rcases symbol?_old_of_push (g := g) rfl rfl hs' with hs | hnone
  · exact .inl ⟨s', hs, hb⟩
  · rw [hnone] at hb
    cases hb

theorem internings (hg : g.Tidy) (h : Internings g g') : g'.Tidy := by
  refine ⟨hg.changes.trans h.changes, Internings.bare h hg.bare, ?_⟩
  refine hg.bases.kept hg.consistent h.changes fun {ty s'} hs' b hb => ?_
  rcases Internings.symbol?_old h hs' with hs | hnone
  · exact .inl ⟨s', hs, hb⟩
  · rw [hnone] at hb
    cases hb

/-- A member of a declared type keeps a graph tidy, if it is no base that is constructed from an
array. -/
theorem addsMember (hg : g.Tidy) (hty : ty ∈ g.declared) (h : AddsMemberTo g ty g')
    (hchange : Change g g')
    (hbases : ∀ {s s'}, g.symbol? ty = some s → g'.symbol? ty = some s' → ∀ b ∈ s'.bases,
      b ∈ s.bases ∨ ¬ g'.ConstructedFromArray b) :
    g'.Tidy ∧ g'.declared = g.declared := by
  refine ⟨⟨hg.changes.tail hchange, h.bare hty hg.bare, ?_⟩, h.addsMember.declared⟩
  refine hg.bases.kept hg.consistent (.single hchange) fun {x s'} hs' b hb => ?_
  by_cases hx : x = ty
  · subst hx
    obtain ⟨s, hs⟩ := issued_iff_symbol?.mp (hg.consistent.toListed.issued hty)
    exact (hbases hs hs' b hb).imp_left fun hb => ⟨s, hs, hb⟩
  · rw [h.symbol?_other hx] at hs'
    exact .inl ⟨s', hs', hb⟩

end Tidy

end TypeGraph

/-! ## Loading -/

namespace Manifest

private theorem attachAttribute_tidy {name : String} (hg : g.Tidy) (hty : ty ∈ g.declared)
    (h : (attachAttribute ty name).run g = some (.ok (), g')) :
    g'.Tidy ∧ g'.declared = g.declared := by
  obtain ⟨marker, g₁, hmarker, h⟩ := run_bind_ok_iff.mp h
  rw [run_get_bind, run_lift_bind] at h
  obtain ⟨g₂, hadd, h⟩ := Option.bind_eq_some_iff.mp h
  cases h
  obtain ⟨rfl, hissued⟩ := require_issued hg.coherent hmarker
  have hchange : Change g₁ g' :=
    .addAttribute (hg.consistent.toListed.issued hty) (hissued marker rfl) hadd
  refine hg.addsMember hty (.inl ⟨marker, hadd⟩) hchange fun hs hs' b hb => .inl ?_
  cases (symbol?_self_of_modify? hadd hs).symm.trans hs'
  exact hb

private theorem attachBase_tidy {ref : TypeRef} (hg : g.Tidy) (hty : ty ∈ g.declared)
    (h : (attachBase ty ref).run g = some (.ok (), g')) :
    g'.Tidy ∧ g'.declared = g.declared := by
  obtain ⟨base, g₁, hbase, h⟩ := run_bind_ok_iff.mp h
  rw [run_get_bind, run_lift_bind] at h
  obtain ⟨g₂, hadd, h⟩ := Option.bind_eq_some_iff.mp h
  cases h
  obtain ⟨hinternings, hissued⟩ := resolve_internings ref hg.coherent hbase
  have hg₁ := hg.internings hinternings
  have hdeclared : g₁.declared = g.declared := (Internings.tables hinternings).2.1
  rw [← hdeclared] at hty ⊢
  have hchange : Change g₁ g' :=
    .addBase (hg₁.consistent.toListed.issued hty) (hissued base rfl) hadd
  have hdenotes := (resolve_denotes ref hg.changes hbase).kept (.single hchange)
  have hplain := hdenotes.not_constructedFromArray (hchange.coherent hg₁.coherent)
  refine hg₁.addsMember hty (.inr (.inl ⟨base, hadd⟩)) hchange fun hs hs' b hb => ?_
  cases (symbol?_self_of_modify? hadd hs).symm.trans hs'
  rcases List.mem_append.mp hb with hb | hb
  · exact .inl hb
  · cases List.mem_singleton.mp hb
    exact .inr hplain

private theorem attachMethod_tidy {entry : MethodEntry} (hg : g.Tidy) (hty : ty ∈ g.declared)
    (h : (attachMethod ty entry).run g = some (.ok (), g')) :
    g'.Tidy ∧ g'.declared = g.declared := by
  obtain ⟨x, g₁, hx, h⟩ := run_bind_ok_iff.mp h
  rw [run_get_bind, run_lift_bind] at h
  obtain ⟨⟨id, g₂⟩, hadd, h⟩ := Option.bind_eq_some_iff.mp h
  cases h
  obtain ⟨hinternings, hdenotes⟩ := entry.resolve_denotes hg.changes hx
  have hg₁ := hg.internings hinternings
  have hdeclared : g₁.declared = g.declared := (Internings.tables hinternings).2.1
  rw [← hdeclared] at hty ⊢
  have hchange : Change g₁ g' :=
    .addMethod (hg₁.consistent.toListed.issued hty) (hdenotes.issued hg₁.coherent) hadd
  refine hg₁.addsMember hty (.inr (.inr ⟨x, id, hadd⟩)) hchange fun hs hs' b hb => .inl ?_
  obtain ⟨g₂, hmodify, e⟩ := Option.map_eq_some_iff.mp hadd
  cases e
  cases (symbol?_self_of_modify? hmodify hs).symm.trans hs'
  exact hb

/-- Steps that keep a graph tidy and declare nothing keep it so one after the other. -/
theorem forM_tidy {α : Type} {x : α → GraphM Unit} {as : List α}
    (step : ∀ a ∈ as, ∀ {s s'}, s.Tidy → s.declared = g.declared →
      (x a).run s = some (.ok (), s') → s'.Tidy ∧ s'.declared = s.declared)
    (hg : g.Tidy) (h : (as.forM x).run g = some (.ok (), g')) :
    g'.Tidy ∧ g'.declared = g.declared := by
  induction as generalizing g with
  | nil =>
    cases h
    exact ⟨hg, rfl⟩
  | cons a as ih =>
    obtain ⟨_, g₁, ha, hrest⟩ := run_bind_ok_iff.mp h
    obtain ⟨hg₁, hdeclared₁⟩ := step a List.mem_cons_self hg rfl ha
    have hlater : ∀ b ∈ as, ∀ {s s'}, s.Tidy → s.declared = g₁.declared →
        (x b).run s = some (.ok (), s') → s'.Tidy ∧ s'.declared = s.declared :=
      fun b hb _ _ hs hdeclared => step b (List.mem_cons_of_mem _ hb) hs
        (hdeclared.trans hdeclared₁)
    obtain ⟨hg', hdeclared'⟩ := ih hlater hg₁ hrest
    exact ⟨hg', hdeclared'.trans hdeclared₁⟩

theorem TypeEntry.attach_tidy {e : TypeEntry} (hg : g.Tidy) (hty : ty ∈ g.declared)
    (h : (e.attach ty).run g = some (.ok (), g')) : g'.Tidy ∧ g'.declared = g.declared := by
  obtain ⟨_, g₁, h₁, h⟩ := run_bind_ok_iff.mp h
  obtain ⟨_, g₂, h₂, h₃⟩ := run_bind_ok_iff.mp h
  obtain ⟨hg₁, hdeclared₁⟩ :=
    forM_tidy (fun _ _ _ _ hs hd => attachAttribute_tidy hs (hd ▸ hty)) hg h₁
  rw [← hdeclared₁] at hty ⊢
  obtain ⟨hg₂, hdeclared₂⟩ :=
    forM_tidy (fun _ _ _ _ hs hd => attachBase_tidy hs (hd ▸ hty)) hg₁ h₂
  rw [← hdeclared₂] at hty ⊢
  exact forM_tidy (fun _ _ _ _ hs hd => attachMethod_tidy hs (hd ▸ hty)) hg₂ h₃

private theorem declareAll_tidy {es : List TypeEntry} {tys : List TypeId} (hg : g.Tidy)
    (h : (es.mapM TypeEntry.declare).run g = some (.ok tys, g')) : g'.Tidy := by
  induction es generalizing g tys with
  | nil =>
    cases h
    exact hg
  | cons e es ih =>
    rw [List.mapM_cons] at h
    obtain ⟨ty, g₁, hdeclare, h⟩ := run_bind_ok_iff.mp h
    obtain ⟨tys', g₂, hrest, h⟩ := run_bind_ok_iff.mp h
    cases h
    obtain ⟨_, rfl⟩ := TypeEntry.declare_ok hdeclare
    exact ih (hg.declare e.head) hrest

private theorem base_tidy (m : Manifest) : m.base.Tidy := by
  unfold base
  split
  · have hplain : PlainBases core := plainBases_of_constructions
      (core_changes.consistent .empty) (by decide +kernel)
    exact ⟨core_changes, DeclaredReachable.core.bare, hplain⟩
  · exact ⟨.refl, DeclaredReachable.empty.bare, fun _ _ hs => by cases hs⟩

/-- In a loaded graph types that are not declared have no members, and no base is constructed from
an array. -/
theorem load_tidy {m : Manifest} (h : m.load = some (.ok g)) : g.Tidy := by
  obtain ⟨tys, g₁, hdeclare, hattach⟩ := run_bind_ok_iff.mp (load_eq_ok h)
  have hg₁ := declareAll_tidy m.base_tidy hdeclare
  have hdeclared : ∀ p ∈ m.types.zip tys, p.2 ∈ g₁.declared := by
    intro p hp
    rw [(declareAll_ok hdeclare).2.1]
    exact List.mem_append_right _ (List.of_mem_zip hp).2
  exact (forM_tidy (fun p hp _ _ hs hd => p.1.attach_tidy hs (hd ▸ hdeclared p hp)) hg₁ hattach).1

end Manifest

end HubBindings
