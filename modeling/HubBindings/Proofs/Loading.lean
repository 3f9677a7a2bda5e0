import HubBindings.Proofs.Manifest
import HubBindings.Proofs.TypeGraph.ReadBack
import HubBindings.Proofs.TypeGraph.Representation

/-!
What a loaded graph says is what the manifest says.

* `Carries` describes the members of a type by names and references, so that the description stays
  true while the graph grows;
* attaching a member adds it to the description of one type (`attachAttribute_carries` and its
  like), and attaching the members of all entries describes each entry's type as the entry does
  (`attachAll_carries`);
* `loads_faithfully` reads the description off the queries of the graph.
-/

namespace HubBindings

open Sequencing

namespace TypeGraph

variable {g g' : TypeGraph} {ty : TypeId}

/-! ## Members by description -/

/-- A parameter has the name that an entry says, and the type that its reference denotes. -/
def DenotesParameter (g : TypeGraph) (p : Manifest.ParameterEntry) (q : Parameter) : Prop :=
  q.name = p.name ∧ g.Denotes p.type q.type

/-- A method has the name, the kind, the parameters and the result that an entry says. -/
structure DenotesMethod (g : TypeGraph) (entry : Manifest.MethodEntry) (x : Method) : Prop where
  name : x.name = entry.name
  kind : x.kind = entry.kind
  parameters : List.Forall₂ g.DenotesParameter entry.parameters x.parameters
  returns : g.Denotes entry.returns x.returns

/-- A symbol has exactly the members that are described, in their order. -/
structure Described (g : TypeGraph) (s : TypeSymbol) (attributes : List String)
    (bases : List TypeRef) (methods : List Manifest.MethodEntry) : Prop where
  attributes : List.Forall₂ (fun name a => g.lookup name = some a) attributes s.attributes
  bases : List.Forall₂ g.Denotes bases s.bases
  methods : List.Forall₂ (fun entry id => ∃ x, g.method? id = some x ∧ g.DenotesMethod entry x)
    methods s.methods

/-- A type has exactly the members that are described. -/
def Carries (g : TypeGraph) (ty : TypeId) (attributes : List String) (bases : List TypeRef)
    (methods : List Manifest.MethodEntry) : Prop :=
  ∃ s, g.symbol? ty = some s ∧ g.Described s attributes bases methods

section Kept

variable (h : Changes g g') {attributes : List String} {bases : List TypeRef}
  {methods : List Manifest.MethodEntry}
include h

theorem DenotesParameter.kept {p : Manifest.ParameterEntry} {q : Parameter}
    (hq : g.DenotesParameter p q) : g'.DenotesParameter p q := ⟨hq.1, hq.2.kept h⟩

theorem DenotesMethod.kept {entry : Manifest.MethodEntry} {x : Method}
    (hx : g.DenotesMethod entry x) : g'.DenotesMethod entry x where
  name := hx.name
  kind := hx.kind
  parameters := hx.parameters.imp fun _ _ => .kept h
  returns := hx.returns.kept h

theorem Described.kept {s : TypeSymbol} (hs : g.Described s attributes bases methods) :
    g'.Described s attributes bases methods where
  attributes := hs.attributes.imp fun _ _ => h.lookup_kept
  bases := hs.bases.imp fun _ _ => .kept h
  methods := by
    refine hs.methods.imp ?_
    rintro entry id ⟨x, hx, hdenotes⟩
    exact ⟨x, h.method?_kept hx, hdenotes.kept h⟩

end Kept

theorem DenotesMethod.issued (hg : Coherent g) {entry : Manifest.MethodEntry} {x : Method}
    (h : g.DenotesMethod entry x) : g.IssuedMethod x := by
  refine ⟨h.returns.issued hg, fun q hq => ?_⟩
  obtain ⟨p, _, _, hdenotes⟩ := exists_of_mem_right h.parameters hq
  exact hdenotes.issued hg

/-- Only one type and what is new differs afterwards, and nothing is declared. -/
structure Alters (ty : TypeId) (g g' : TypeGraph) : Prop where
  changes : Changes g g'
  declared : g'.declared = g.declared
  others : ∀ x, x ≠ ty → ∀ s, g.symbol? x = some s → g'.symbol? x = some s

theorem Alters.refl (ty : TypeId) (g : TypeGraph) : Alters ty g g := ⟨.refl, rfl, fun _ _ _ => id⟩

theorem Alters.trans {g'' : TypeGraph} (h : Alters ty g g') (h' : Alters ty g' g'') :
    Alters ty g g'' where
  changes := h.changes.trans h'.changes
  declared := h'.declared.trans h.declared
  others x hx s hs := h'.others x hx s (h.others x hx s hs)

theorem Internings.alters (h : Internings g g') (ty : TypeId) : Alters ty g g' where
  changes := h.changes
  declared := (Internings.tables h).2.1
  others _ _ _ hs := Internings.symbol?_kept h hs

theorem AddsMemberTo.alters (h : AddsMemberTo g ty g') (hchange : Change g g') :
    Alters ty g g' where
  changes := .single hchange
  declared := h.addsMember.declared
  others _ hx _ hs := (h.symbol?_other hx).trans hs

/-- Members of other types stay as they are described. -/
theorem Carries.of_alters {x : TypeId} {attributes : List String} {bases : List TypeRef}
    {methods : List Manifest.MethodEntry} (h : Carries g x attributes bases methods)
    (halters : Alters ty g g') (hx : x ≠ ty) : Carries g' x attributes bases methods := by
  obtain ⟨s, hs, hdescribed⟩ := h
  exact ⟨s, halters.others x hx s hs, hdescribed.kept halters.changes⟩

end TypeGraph

namespace Manifest

open TypeGraph

variable {g g' : TypeGraph} {ty : TypeId} {attributes : List String} {bases : List TypeRef}
  {methods : List MethodEntry}

/-! ## Attaching members -/

private theorem resolveParameters_denotes (hg : Changes {} g) {ps : List ParameterEntry}
    {qs : List Parameter} (h : (ps.mapM ParameterEntry.resolve).run g = some (.ok qs, g')) :
    Internings g g' ∧ List.Forall₂ g'.DenotesParameter ps qs := by
  refine mapM_run_ok (I := fun before done s =>
    Internings g s ∧ List.Forall₂ s.DenotesParameter before done) ?_ ⟨.refl, .nil⟩ h
  rintro before done p q s s' ⟨hinternings, hdone⟩ hrun
  obtain ⟨type, s₁, htype, hrun⟩ := run_bind_ok_iff.mp hrun
  cases hrun
  have hs : Changes {} s := hg.trans hinternings.changes
  have hmore := (resolve_internings p.type (hs.coherent .empty) htype).1
  refine ⟨hinternings.trans hmore, List.rel_append ?_ (.cons ⟨rfl, ?_⟩ .nil)⟩
  · exact hdone.imp fun _ _ => .kept hmore.changes
  · exact resolve_denotes p.type hs htype

theorem MethodEntry.resolve_denotes (hg : Changes {} g) {entry : MethodEntry} {x : Method}
    (h : entry.resolve.run g = some (.ok x, g')) :
    Internings g g' ∧ g'.DenotesMethod entry x := by
  obtain ⟨returns, g₁, hreturns, h⟩ := run_bind_ok_iff.mp h
  obtain ⟨parameters, g₂, hparameters, h⟩ := run_bind_ok_iff.mp h
  cases h
  have hinternings := (resolve_internings entry.returns (hg.coherent .empty) hreturns).1
  have hdenotes := TypeGraph.resolve_denotes entry.returns hg hreturns
  obtain ⟨hmore, hps⟩ := resolveParameters_denotes (hg.trans hinternings.changes) hparameters
  exact ⟨hinternings.trans hmore, rfl, rfl, hps, hdenotes.kept hmore.changes⟩

theorem symbol?_self_of_modify? {change : TypeSymbol → TypeSymbol} {s : TypeSymbol}
    (h : g.modify? ty change = some g') (hs : g.symbol? ty = some s) :
    g'.symbol? ty = some (change s) := by
  rw [(modify?_eq_some h).2, if_pos rfl, hs, Option.map_some]

theorem attachAttribute_carries {name : String} (hg : Changes {} g)
    (hc : Carries g ty attributes bases methods)
    (h : (attachAttribute ty name).run g = some (.ok (), g')) :
    Alters ty g g' ∧ Carries g' ty (attributes ++ [name]) bases methods := by
  obtain ⟨s, hs, hdescribed⟩ := hc
  obtain ⟨marker, g₁, hmarker, h⟩ := run_bind_ok_iff.mp h
  rw [run_get_bind, run_lift_bind] at h
  obtain ⟨g₂, hadd, h⟩ := Option.bind_eq_some_iff.mp h
  cases h
  have hissued := (require_issued (hg.coherent .empty) hmarker).2 marker rfl
  obtain ⟨rfl, hl⟩ := require_cases hmarker
  have hchange : Change g₁ g' := .addAttribute (issued_iff_symbol?.mpr ⟨s, hs⟩) hissued hadd
  have hkept := hdescribed.kept (.single hchange)
  refine ⟨AddsMemberTo.alters (.inl ⟨marker, hadd⟩) hchange, _, symbol?_self_of_modify? hadd hs, ?_⟩
  exact ⟨List.rel_append hkept.attributes (.cons (hchange.lookup_kept (hl marker rfl)) .nil),
    hkept.bases, hkept.methods⟩

private theorem attachBase_carries {ref : TypeRef} (hg : Changes {} g)
    (hc : Carries g ty attributes bases methods)
    (h : (attachBase ty ref).run g = some (.ok (), g')) :
    Alters ty g g' ∧ Carries g' ty attributes (bases ++ [ref]) methods := by
  obtain ⟨s, hs, hdescribed⟩ := hc
  obtain ⟨base, g₁, hbase, h⟩ := run_bind_ok_iff.mp h
  rw [run_get_bind, run_lift_bind] at h
  obtain ⟨g₂, hadd, h⟩ := Option.bind_eq_some_iff.mp h
  cases h
  obtain ⟨hinternings, hissued⟩ := resolve_internings ref (hg.coherent .empty) hbase
  have hs₁ := Internings.symbol?_kept hinternings hs
  have hchange : Change g₁ g' :=
    .addBase (issued_iff_symbol?.mpr ⟨s, hs₁⟩) (hissued base rfl) hadd
  have halters := AddsMemberTo.alters (.inr (.inl ⟨base, hadd⟩)) hchange
  have hkept := hdescribed.kept (hinternings.changes.tail hchange)
  have hdenoted := (resolve_denotes ref hg hbase).kept (.single hchange)
  refine ⟨(Internings.alters hinternings ty).trans halters, _, symbol?_self_of_modify? hadd hs₁, ?_⟩
  exact ⟨hkept.attributes, List.rel_append hkept.bases (.cons hdenoted .nil), hkept.methods⟩

private theorem attachMethod_carries {entry : MethodEntry} (hg : Changes {} g)
    (hc : Carries g ty attributes bases methods)
    (h : (attachMethod ty entry).run g = some (.ok (), g')) :
    Alters ty g g' ∧ Carries g' ty attributes bases (methods ++ [entry]) := by
  obtain ⟨s, hs, hdescribed⟩ := hc
  obtain ⟨x, g₁, hx, h⟩ := run_bind_ok_iff.mp h
  rw [run_get_bind, run_lift_bind] at h
  obtain ⟨⟨id, g₂⟩, hadd, h⟩ := Option.bind_eq_some_iff.mp h
  cases h
  obtain ⟨hinternings, hdenotes⟩ := entry.resolve_denotes hg hx
  have hg₁ : Changes {} g₁ := hg.trans hinternings.changes
  have hs₁ := Internings.symbol?_kept hinternings hs
  have hchange : Change g₁ g' :=
    .addMethod (issued_iff_symbol?.mpr ⟨s, hs₁⟩) (hdenotes.issued (hg₁.coherent .empty)) hadd
  have halters := AddsMemberTo.alters (.inr (.inr ⟨x, id, hadd⟩)) hchange
  have hkept := hdescribed.kept (hinternings.changes.tail hchange)
  refine ⟨(Internings.alters hinternings ty).trans halters, ?_⟩
  obtain ⟨g₂, hmodify, e⟩ := Option.map_eq_some_iff.mp hadd
  cases e
  have hnew : (g₁.methods.push x)[g₁.methods.size]? = some x := Array.getElem?_push_size
  have hs₂ := symbol?_self_of_modify? hmodify hs₁
  refine ⟨_, hs₂, hkept.attributes, hkept.bases, ?_⟩
  exact List.rel_append hkept.methods (.cons ⟨x, hnew, hdenotes.kept (.single hchange)⟩ .nil)

/-- Attaching one member after the other describes all of them. -/
theorem forM_carries {α : Type} {x : α → GraphM Unit} {Q : List α → TypeGraph → Prop}
    (step : ∀ {before a s s'}, Changes {} s → Q before s → (x a).run s = some (.ok (), s') →
      Alters ty s s' ∧ Q (before ++ [a]) s')
    (hg : Changes {} g) (hQ : Q [] g) {as : List α} (h : (as.forM x).run g = some (.ok (), g')) :
    Alters ty g g' ∧ Q as g' := by
  refine forM_run_ok (I := fun before s => Alters ty g s ∧ Q before s) ?_ ⟨.refl ty g, hQ⟩ h
  rintro before a s s' ⟨halters, hbefore⟩ hrun
  obtain ⟨hmore, hnext⟩ := step (hg.trans halters.changes) hbefore hrun
  exact ⟨halters.trans hmore, hnext⟩

/-- Attaching the members of an entry describes its type as the entry does. -/
theorem TypeEntry.attach_carries (hg : Changes {} g) (hc : Carries g ty [] [] []) {e : TypeEntry}
    (h : (e.attach ty).run g = some (.ok (), g')) :
    Alters ty g g' ∧ Carries g' ty e.attributes e.bases e.methods := by
  obtain ⟨_, g₁, h₁, h⟩ := run_bind_ok_iff.mp h
  obtain ⟨_, g₂, h₂, h₃⟩ := run_bind_ok_iff.mp h
  obtain ⟨halters₁, hc₁⟩ := forM_carries (Q := fun before s => Carries s ty before [] [])
    attachAttribute_carries hg hc h₁
  have hg₁ : Changes {} g₁ := hg.trans halters₁.changes
  obtain ⟨halters₂, hc₂⟩ := forM_carries (Q := fun before s => Carries s ty e.attributes before [])
    attachBase_carries hg₁ hc₁ h₂
  have hg₂ : Changes {} g₂ := hg₁.trans halters₂.changes
  obtain ⟨halters₃, hc₃⟩ :=
    forM_carries (Q := fun before s => Carries s ty e.attributes e.bases before)
      attachMethod_carries hg₂ hc₂ h₃
  exact ⟨(halters₁.trans halters₂).trans halters₃, hc₃⟩

/-- Attaching the members of several entries to different types describes each type as its entry
does, and leaves other types alone. -/
theorem attachAll_carries {pairs : List (TypeEntry × TypeId)} (hg : Changes {} g)
    (hnodup : (pairs.map (·.2)).Nodup) (hc : ∀ p ∈ pairs, Carries g p.2 [] [] [])
    (h : (pairs.forM fun p => p.1.attach p.2).run g = some (.ok (), g')) :
    Changes g g' ∧ g'.declared = g.declared ∧
      (∀ ty ∉ pairs.map (·.2), ∀ s, g.symbol? ty = some s → g'.symbol? ty = some s) ∧
      ∀ p ∈ pairs, Carries g' p.2 p.1.attributes p.1.bases p.1.methods := by
  induction pairs generalizing g with
  | nil =>
    cases h
    exact ⟨.refl, rfl, fun _ _ _ => id, by simp⟩
  | cons p pairs ih =>
    obtain ⟨_, g₁, hp, hrest⟩ := run_bind_ok_iff.mp h
    rw [List.map_cons, List.nodup_cons] at hnodup
    have hne : ∀ q ∈ pairs, q.2 ≠ p.2 := fun q hq e => hnodup.1 (e ▸ List.mem_map_of_mem hq)
    obtain ⟨halters, hfirst⟩ := p.1.attach_carries hg (hc p List.mem_cons_self) hp
    obtain ⟨hchanges, hdeclared, hothers, hcarries⟩ := ih (hg.trans halters.changes) hnodup.2
      (fun q hq => (hc q (List.mem_cons_of_mem _ hq)).of_alters halters (hne q hq)) hrest
    refine ⟨halters.changes.trans hchanges, hdeclared.trans halters.declared, ?_, ?_⟩
    · intro ty hty s hs
      rw [List.map_cons, List.mem_cons, not_or] at hty
      exact hothers ty hty.2 s (halters.others ty hty.1 s hs)
    · intro q hq
      rcases List.mem_cons.mp hq with rfl | hq
      · obtain ⟨s, hs, hdescribed⟩ := hfirst
        exact ⟨s, hothers _ hnodup.1 s hs, hdescribed.kept hchanges⟩
      · exact hcarries q hq

/-! ## Declaring entries -/

theorem TypeEntry.declare_ok {e : TypeEntry} (h : e.declare.run g = some (.ok ty, g')) :
    ty = g.nextType ∧ g' = (g.declare { head := e.head }).2 := by
  unfold TypeEntry.declare at h
  rw [run_get_bind] at h
  obtain ⟨_, g₁, hset, h⟩ := run_bind_ok_iff.mp h
  cases hset
  obtain ⟨first, g₂, hfirst, h⟩ := run_bind_ok_iff.mp h
  obtain ⟨rfl, _⟩ := require_cases hfirst
  rw [run_lift_bind] at h
  obtain ⟨kind, _, h⟩ := Option.bind_eq_some_iff.mp h
  split at h
  · cases h
    exact ⟨rfl, rfl⟩
  · cases h

/-- Declaring entries makes a type for each, without members. -/
theorem declareAll_ok {es : List TypeEntry} {tys : List TypeId}
    (h : (es.mapM TypeEntry.declare).run g = some (.ok tys, g')) :
    Changes g g' ∧ g'.declared = g.declared ++ tys ∧
      List.Forall₂ (fun e ty => g'.symbol? ty = some { form := .declared e.head }) es tys := by
  refine mapM_run_ok (I := fun before done s => Changes g s ∧ s.declared = g.declared ++ done ∧
    List.Forall₂ (fun e ty => s.symbol? ty = some { form := .declared e.head }) before done)
    ?_ ⟨.refl, by simp, .nil⟩ h
  rintro before done e ty s s' ⟨hchanges, hdeclared, hsymbols⟩ hrun
  obtain ⟨rfl, rfl⟩ := TypeEntry.declare_ok hrun
  have hchange : Change s (s.declare { head := e.head }).2 :=
    .declare _ ⟨by simp, by simp, by simp⟩
  refine ⟨hchanges.tail hchange, ?_, List.rel_append ?_ (.cons ?_ .nil)⟩
  · change s.declared ++ [s.nextType] = _
    rw [hdeclared, List.append_assoc]
  · exact hsymbols.imp fun _ _ => symbol?_push_old rfl
  · rw [symbol?_push (g := s) rfl, if_pos rfl]
    rfl

/-! ## Reading a loaded graph -/

/-- A method reads as its entry. -/
def ReadsMethod (g : TypeGraph) (entry : MethodEntry) (id : MethodId) : Prop :=
  ∃ x, g.method? id = some x ∧ x.name = entry.name ∧ x.kind = entry.kind ∧
    List.Forall₂ (fun (p : ParameterEntry) (q : Parameter) =>
      q.name = p.name ∧ g.readBack? q.type = some p.type) entry.parameters x.parameters ∧
    g.readBack? x.returns = some entry.returns

/-- A declared type reads as its entry. -/
structure Reads (g : TypeGraph) (e : TypeEntry) (ty : TypeId) : Prop where
  name : g.name? ty = some e.name
  nameSpace : g.nameSpace? ty = some e.nameSpace
  kind : g.kind? ty = some e.kind
  origin : (g.head? ty).map (·.origin) = some e.origin
  arity : g.arity? ty = some e.typeParameters
  attributes : ∃ as, g.attributes? ty = some as ∧ as.mapM g.metadataName? = some e.attributes
  bases : ∃ bs, g.bases? ty = some bs ∧ bs.mapM g.readBack? = some e.bases
  methods : ∃ s, g.symbol? ty = some s ∧ List.Forall₂ (ReadsMethod g) e.methods s.methods
  /-- The methods that the graph shows are the ordinary ones. -/
  ordinary : ∃ ids, g.methods? ty = some ids ∧
    List.Forall₂ (ReadsMethod g) (e.methods.filter (·.kind = .ordinary)) ids

private theorem readsMethod_of_denotes (hg : Changes {} g) {entry : MethodEntry} {id : MethodId}
    {x : Method} (hx : g.method? id = some x) (h : g.DenotesMethod entry x) :
    ReadsMethod g entry id :=
  ⟨x, hx, h.name, h.kind, h.parameters.imp fun _ _ hp => ⟨hp.1, hp.2.readBack? hg⟩,
    h.returns.readBack? hg⟩

private theorem mapM_of_forall₂ {α β : Type} {f : β → Option α} {as : List α} {bs : List β}
    (h : List.Forall₂ (fun a b => f b = some a) as bs) : bs.mapM f = some as :=
  mapM_eq_some_iff.mpr h.flip

private theorem reads_of_carries (hg : Changes {} g) {e : TypeEntry}
    (hf : g.form? ty = some (.declared e.head))
    (hc : Carries g ty e.attributes e.bases e.methods) : Reads g e ty := by
  obtain ⟨s, hs, hdescribed⟩ := hc
  have hmember : g.memberSymbol? ty = some s := by
    simp [memberSymbol?, definition?_eq_form?, hf, TypeForm.definition, hs]
  have hmethods : List.Forall₂ (ReadsMethod g) e.methods s.methods := by
    refine hdescribed.methods.imp ?_
    rintro entry id ⟨x, hx, hdenotes⟩
    exact readsMethod_of_denotes hg hx hdenotes
  have hhead := head?_of_declared hf
  refine
    { name := name?_of_declared hf
      nameSpace := nameSpace?_of_declared hf
      kind := by rw [kind?, hhead]; rfl
      origin := by rw [hhead]; rfl
      arity := by rw [arity?, hhead]; rfl
      attributes := ⟨s.attributes, by rw [attributes?, hmember]; rfl, ?_⟩
      bases := ⟨s.bases, by rw [bases?, hmember]; rfl, ?_⟩
      methods := ⟨s, hs, hmethods⟩
      ordinary := ⟨s.methods.filter g.isOrdinary, by rw [methods?, hmember]; rfl, ?_⟩ }
  · exact mapM_of_forall₂ (hdescribed.attributes.imp fun _ _ =>
      metadataName?_of_lookup (hg.coherent .empty))
  · exact mapM_of_forall₂ (hdescribed.bases.imp fun _ _ h => h.readBack? hg)
  · refine forall₂_filter hmethods ?_
    rintro entry id ⟨x, hx, _, hkind, _⟩
    simp [isOrdinary, hx, hkind]

/-- The declared types of a loaded graph read as the entries of the manifest, in their order, after
the types that were there before. -/
theorem load_reads {m : Manifest} (h : m.load = some (.ok g)) :
    ∃ tys, g.declared = m.base.declared ++ tys ∧ List.Forall₂ (Reads g) m.types tys := by
  obtain ⟨tys, g₁, hdeclare, hattach⟩ := run_bind_ok_iff.mp (load_eq_ok h)
  obtain ⟨hchanges, hdeclared, hsymbols⟩ := declareAll_ok hdeclare
  have hg₁ : Changes {} g₁ := m.base_reachable.changes.trans hchanges
  obtain ⟨hlength, hsymbol⟩ := List.forall₂_iff_zip.mp hsymbols
  have hpairs : (m.types.zip tys).map (·.2) = tys := List.map_snd_zip (by omega)
  -- declared types ascend, so the new ones are different
  have hnodup : tys.Nodup := by
    have hascending := (hg₁.consistent .empty).ascending
    rw [hdeclared, List.pairwise_append] at hascending
    exact hascending.2.1.imp fun hlt e => by rw [e] at hlt; exact Nat.lt_irrefl _ hlt
  obtain ⟨hchanges', hdeclared', _, hcarries⟩ := attachAll_carries hg₁ (hpairs.symm ▸ hnodup)
    (fun p hp => ⟨_, hsymbol hp, .nil, .nil, .nil⟩) hattach
  refine ⟨tys, hdeclared'.trans hdeclared, List.forall₂_iff_zip.mpr ⟨hlength, ?_⟩⟩
  intro e ty hp
  refine reads_of_carries (hg₁.trans hchanges') (hchanges'.form?_kept ?_) (hcarries _ hp)
  rw [form?, hsymbol hp]
  rfl

/-- What a reference is resolved to reads back to it, in every later graph, and is found again by
it. So a loaded graph reads as its manifest. -/
theorem loads_faithfully :
    (∀ {g g' later : TypeGraph} {ref : TypeRef} {ty : TypeId}, g.Reachable →
      ref.resolve.run g = some (.ok ty, g') → Later g' later →
        later.readBack? ty = some ref ∧ ref.resolve.run later = some (.ok ty, later)) ∧
    ∀ {m : Manifest} {g : TypeGraph}, m.load = some (.ok g) → g.Reachable ∧
      ∃ tys, g.declared = m.base.declared ++ tys ∧ List.Forall₂ (Reads g) m.types tys :=
  ⟨fun hg hrun hlater => resolve_stays hg hrun hlater, fun h => ⟨load_reachable h, load_reads h⟩⟩

/-- A type in two fragments, with a generic base, methods of two kinds, and an array of a
constructed type. -/
def stockManifest : Manifest :=
  { types :=
      [{ kind := .classType, nameSpace := "App", name := "MarkAttribute" },
       { kind := .interface, nameSpace := "App", name := "IStore", typeParameters := 1 },
       { kind := .interface, nameSpace := "App", name := "IStock"
         attributes := ["App.MarkAttribute", "App.MarkAttribute"]
         bases := [.generic "App.IStore`1" [.named "System.String"]]
         methods :=
          [{ name := "Pages"
             parameters := [{ name := "size", type := .named "System.Int32" }]
             returns := .array (.generic "System.Collections.Generic.Dictionary`2"
              [.named "System.String", .array (.named "App.IStock")]) },
           { name := "Create", kind := .static, returns := .named "App.IStock" }] },
       { kind := .interface, nameSpace := "App", name := "IStock", origin := .referenced
         bases := [.generic "App.IStore`1" [.named "System.String"]] }] }

/-- The constructed type of `counter`, looked at after one more declaration under the name of its
definition; and the manifest. -/
theorem stockManifest_loads_faithfully :
    (∃ later, Later (counter.withConstruction ⟨0⟩ [⟨1⟩]) later ∧
      (later.declaredAs "App.Box`1").length = 2 ∧
      later.readBack? ⟨2⟩ = some (.generic "App.Box`1" [.named "App.IShop"]) ∧
      (TypeRef.generic "App.Box`1" [.named "App.IShop"]).resolve.run later =
        some (.ok ⟨2⟩, later)) ∧
    ∃ g, stockManifest.load = some (.ok g) ∧ g.Reachable ∧
      ∃ tys, g.declared = stockManifest.base.declared ++ tys ∧
        List.Forall₂ (Reads g) stockManifest.types tys := by
  refine ⟨?_, _, load_of_isSome (by decide +kernel), loads_faithfully.2 (load_of_isSome ?_)⟩
  · have hcounter : counter.Reachable := .declareAll .empty (by decide +kernel)
    have hrun : (TypeRef.generic "App.Box`1" [.named "App.IShop"]).resolve.run counter =
        some (.ok ⟨2⟩, counter.withConstruction ⟨0⟩ [⟨1⟩]) := rfl
    have hlater : Later (counter.withConstruction ⟨0⟩ [⟨1⟩])
        ((counter.withConstruction ⟨0⟩ [⟨1⟩]).declare
          { head := { kind := .classType, nameSpace := "App", name := "Box", arity := 1 } }).2 :=
      .single (.declare _ (by decide +kernel))
    exact ⟨_, hlater, by decide +kernel, loads_faithfully.1 hcounter hrun hlater⟩
  · decide +kernel

end Manifest

end HubBindings
