import HubBindings.Proofs.TypeGraph.Reachable

/-!
Graphs that manifests describe.

`Leads g x P` says that `x` only makes calls on the graph `g`, whether it succeeds or fails, and
that a result satisfies `P`. Loading a manifest makes calls only, so its graph is one that calls
lead to (`Manifest.load_reachable`).
-/

namespace HubBindings

open Sequencing TypeGraph

variable {g : TypeGraph} {α β : Type} {P : TypeGraph → α → Prop} {Q : TypeGraph → β → Prop}

/-- From `g` the computation leads to a reachable graph, and a result satisfies `P` there. -/
def Leads (g : TypeGraph) (x : GraphM α) (P : TypeGraph → α → Prop) : Prop :=
  ∀ r g', x.run g = some (r, g') → g'.Reachable ∧ Changes g g' ∧ ∀ a, r = .ok a → P g' a

namespace Leads

theorem pure (hg : g.Reachable) {a : α} (ha : P g a) : Leads g (pure a) P := by
  intro r g' h
  cases h
  exact ⟨hg, .refl, fun _ e => by cases e; exact ha⟩

theorem throw (hg : g.Reachable) (e : GraphError) : Leads g (throw e) P := by
  intro r g' h
  cases h
  exact ⟨hg, .refl, fun _ e => by cases e⟩

theorem bind {x : GraphM α} {k : α → GraphM β} (hx : Leads g x P)
    (hk : ∀ g₁ a, g₁.Reachable → Changes g g₁ → P g₁ a → Leads g₁ (k a) Q) :
    Leads g (x >>= k) Q := by
  intro r g' h
  rcases run_bind_iff.mp h with ⟨e, hrun, rfl⟩ | ⟨a, g₁, hrun, hrest⟩
  · obtain ⟨hreach, hchanges, _⟩ := hx _ _ hrun
    exact ⟨hreach, hchanges, fun _ e => by cases e⟩
  · obtain ⟨hreach, hchanges, hP⟩ := hx _ _ hrun
    obtain ⟨hreach', hchanges', hQ⟩ := hk g₁ a hreach hchanges (hP a rfl) _ _ hrest
    exact ⟨hreach', hchanges.trans hchanges', hQ⟩

theorem get_bind {k : TypeGraph → GraphM β} (h : Leads g (k g) Q) : Leads g (get >>= k) Q :=
  fun r g' hrun => h r g' hrun

theorem lift_bind {o : Option α} {k : α → GraphM β} (h : ∀ a, o = some a → Leads g (k a) Q) :
    Leads g (liftM o >>= k) Q := by
  intro r g' hrun
  rw [run_lift_bind] at hrun
  obtain ⟨a, ha, hrest⟩ := Option.bind_eq_some_iff.mp hrun
  exact h a ha r g' hrest

/-- The next graph is one that a call leads to. -/
theorem set {g₁ : TypeGraph} (hg : g.Reachable) (h : Operation g g₁) :
    Leads g (set g₁) fun g' _ => g' = g₁ := by
  intro r g' hrun
  cases hrun
  exact ⟨.step hg h, h.changes hg.coherent, fun _ _ => rfl⟩

theorem mono {x : GraphM α} {P' : TypeGraph → α → Prop} (hx : Leads g x P)
    (h : ∀ g' a, P g' a → P' g' a) : Leads g x P' := by
  intro r g' hrun
  obtain ⟨hreach, hchanges, hP⟩ := hx r g' hrun
  exact ⟨hreach, hchanges, fun a ha => h g' a (hP a ha)⟩

theorem forM {as : List α} {x : α → GraphM Unit} (hg : g.Reachable)
    (hx : ∀ a ∈ as, ∀ g₁, g₁.Reachable → Changes g g₁ → Leads g₁ (x a) fun _ _ => True) :
    Leads g (as.forM x) fun _ _ => True := by
  induction as generalizing g with
  | nil => exact .pure hg trivial
  | cons a as ih =>
    refine .bind (hx a List.mem_cons_self g hg .refl) fun g₁ _ hg₁ hchanges _ => ?_
    exact ih hg₁ fun b hb g₂ hg₂ hchanges' =>
      hx b (List.mem_cons_of_mem _ hb) g₂ hg₂ (hchanges.trans hchanges')

/-- What holds of a result and stays holds of all results. -/
theorem mapM {as : List α} {x : α → GraphM β} (hg : g.Reachable)
    (hQ : ∀ {g₁ g₂ b}, Changes g₁ g₂ → Q g₁ b → Q g₂ b)
    (hx : ∀ a ∈ as, ∀ g₁, g₁.Reachable → Changes g g₁ → Leads g₁ (x a) Q) :
    Leads g (as.mapM x) fun g' bs => ∀ b ∈ bs, Q g' b := by
  induction as generalizing g with
  | nil => exact .pure hg (by simp)
  | cons a as ih =>
    rw [List.mapM_cons]
    refine .bind (hx a List.mem_cons_self g hg .refl) fun g₁ b hg₁ hchanges hb => ?_
    have hrest := ih hg₁ fun a' ha' g₂ hg₂ hchanges' =>
      hx a' (List.mem_cons_of_mem _ ha') g₂ hg₂ (hchanges.trans hchanges')
    refine .bind hrest fun g₂ bs hg₂ hc hbs => ?_
    refine .pure hg₂ fun b' hb' => ?_
    rcases List.mem_cons.mp hb' with rfl | hb'
    · exact hQ hc hb
    · exact hbs b' hb'

theorem require (hg : g.Reachable) (name : String) : Leads g (require name) Issued := by
  intro r g' hrun
  obtain ⟨rfl, hr⟩ := require_issued hg.coherent hrun
  exact ⟨hg, .refl, hr⟩

theorem resolve (hg : g.Reachable) (ref : TypeRef) : Leads g ref.resolve Issued := by
  intro r g' hrun
  obtain ⟨hchanges, hr⟩ := resolve_internings ref hg.coherent hrun
  exact ⟨.step hg (.resolve hrun), hchanges.changes, hr⟩

end Leads

namespace Manifest

open Leads

theorem TypeEntry.declare_leads (hg : g.Reachable) (e : TypeEntry) : Leads g e.declare Issued := by
  have hdeclare : Operation g (g.declare { head := e.head }).2 :=
    .declare _ ⟨by simp, by simp, by simp⟩
  have hnew : (g.declare { head := e.head }).2.Issued g.nextType :=
    issued_iff_form?.mpr ⟨_, form?_declare g _⟩
  refine .get_bind (.bind (.set hg hdeclare) fun g₁ _ hg₁ _ e => ?_)
  subst e
  refine .bind (.require hg₁ _) fun g₂ first hg₂ hchanges _ => .lift_bind fun kind _ => ?_
  split
  · exact .pure hg₂ (hchanges.issued hnew)
  · exact .throw hg₂ _

theorem MethodEntry.resolve_leads (hg : g.Reachable) (m : MethodEntry) :
    Leads g m.resolve IssuedMethod := by
  have hparameter : ∀ (p : ParameterEntry) {g₁ : TypeGraph}, g₁.Reachable →
      Leads g₁ p.resolve fun g' q => g'.Issued q.type := fun p _ hg₁ =>
    .bind (.resolve hg₁ p.type) fun _ _ hg₂ _ hty => .pure hg₂ hty
  refine .bind (.resolve hg m.returns) fun g₁ returns hg₁ _ hreturns => ?_
  refine .bind (.mapM (Q := fun g' (q : Parameter) => g'.Issued q.type) hg₁
    (fun hc h => hc.issued h) fun p _ _ hg₂ _ => hparameter p hg₂)
    fun g₂ parameters hg₂ hchanges hparameters => ?_
  exact .pure hg₂ ⟨hchanges.issued hreturns, hparameters⟩

variable {ty : TypeId}

private theorem attachAttribute_leads (hg : g.Reachable) (hty : g.Issued ty) (name : String) :
    Leads g (attachAttribute ty name) fun _ _ => True := by
  refine .bind (.require hg name) fun g₁ marker hg₁ hchanges hmarker => .get_bind ?_
  refine .lift_bind fun g₂ hadd => .mono (.set hg₁ ?_) fun _ _ _ => trivial
  exact .addAttribute (hchanges.issued hty) hmarker hadd

private theorem attachBase_leads (hg : g.Reachable) (hty : g.Issued ty) (ref : TypeRef) :
    Leads g (attachBase ty ref) fun _ _ => True := by
  refine .bind (.resolve hg ref) fun g₁ base hg₁ hchanges hbase => .get_bind ?_
  refine .lift_bind fun g₂ hadd => .mono (.set hg₁ ?_) fun _ _ _ => trivial
  exact .addBase (hchanges.issued hty) hbase hadd

private theorem attachMethod_leads (hg : g.Reachable) (hty : g.Issued ty) (entry : MethodEntry) :
    Leads g (attachMethod ty entry) fun _ _ => True := by
  refine .bind (entry.resolve_leads hg) fun g₁ m hg₁ hchanges hm => .get_bind ?_
  refine .lift_bind fun added hadd => .mono (.set hg₁ ?_) fun _ _ _ => trivial
  exact .addMethod (hchanges.issued hty) hm hadd

theorem TypeEntry.attach_leads (hg : g.Reachable) (hty : g.Issued ty) (e : TypeEntry) :
    Leads g (e.attach ty) fun _ _ => True := by
  refine .bind (.forM hg fun a _ g₁ hg₁ hc => attachAttribute_leads hg₁ (hc.issued hty) a)
    fun g₁ _ hg₁ hc₁ _ => ?_
  have hty₁ := hc₁.issued hty
  refine .bind (.forM hg₁ fun b _ g₂ hg₂ hc => attachBase_leads hg₂ (hc.issued hty₁) b)
    fun g₂ _ hg₂ hc₂ _ => ?_
  have hty₂ := hc₂.issued hty₁
  exact .forM hg₂ fun m _ g₃ hg₃ hc => attachMethod_leads hg₃ (hc.issued hty₂) m

private theorem build_leads (hg : g.Reachable) (m : Manifest) :
    Leads g m.build fun _ _ => True := by
  refine .bind (.mapM (Q := Issued) hg (fun hc h => hc.issued h)
    fun e _ g₁ hg₁ _ => e.declare_leads hg₁) fun g₁ tys hg₁ _ htys => ?_
  refine .forM hg₁ fun entry hentry g₂ hg₂ hc => ?_
  exact entry.1.attach_leads hg₂ (hc.issued (htys entry.2 (List.of_mem_zip hentry).2))

theorem base_reachable (m : Manifest) : m.base.Reachable := by
  unfold base
  split
  · exact .core
  · exact .empty

theorem load_eq_ok {m : Manifest} (h : m.load = some (.ok g)) :
    m.build.run m.base = some (.ok (), g) := by
  unfold load at h
  obtain ⟨⟨r, g'⟩, hrun, e⟩ := Option.map_eq_some_iff.mp h
  cases r with
  | error _ => cases e
  | ok _ =>
    cases e
    exact hrun

/-- A graph that a manifest describes is one that calls lead to. -/
theorem load_reachable {m : Manifest} (h : m.load = some (.ok g)) : g.Reachable :=
  (build_leads m.base_reachable m _ _ (load_eq_ok h)).1

/-- A manifest that can be loaded describes a graph. -/
theorem load_of_isSome {m : Manifest} (h : (m.load.bind Except.toOption).isSome = true) :
    m.load = some (.ok ((m.load.bind Except.toOption).getD {})) := by
  cases hl : m.load with
  | none => rw [hl] at h; cases h
  | some r =>
    cases r with
    | error e => rw [hl] at h; cases h
    | ok g => rfl

end Manifest

end HubBindings
