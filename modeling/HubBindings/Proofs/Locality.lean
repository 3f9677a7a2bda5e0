import HubBindings.Proofs.Client.Paths
import HubBindings.Proofs.Conservation
import HubBindings.Proofs.Outcome
import HubBindings.Proofs.TypeGraph.Extension

/-!
A further declaration has a local effect on a run.

A new type under a new name adds at most one contract to each role, at the end, and the reports that
come with it name the new type (`discoverRole?_declare`, `bindAll?_declare`). So the interface files
of all other modules stay as they are, and what was reported is reported again in the same order.
-/

namespace HubBindings

open Sequencing TypeGraph Contract Binding

variable {g : TypeGraph} {d : Declaration} {w : WellKnown} {role : Role} {scope : Scope}
  {style : NamingStyle} {rules : List Rule}

/-! ## Well-known types -/

/-- The names that well-known types are looked up by. -/
def WellKnownNames.all (names : WellKnownNames) : List String :=
  [names.task, names.genericTask, names.asyncEnumerable, names.channelReader,
    names.cancellationToken, names.hubMarker, names.receiverMarker, names.dataTypeMarker]

theorem WellKnown.resolve_congr {g g' : TypeGraph} {names : WellKnownNames}
    (h : ∀ name ∈ names.all, g'.lookup name = g.lookup name) :
    WellKnown.resolve g' names = WellKnown.resolve g names := by
  simp only [WellKnownNames.all, List.forall_mem_cons] at h
  obtain ⟨h₁, h₂, h₃, h₄, h₅, h₆, h₇, h₈, _⟩ := h
  simp only [WellKnown.resolve, WellKnown.marker, h₁, h₂, h₃, h₄, h₅, h₆, h₇, h₈]

theorem Generator.prepare_declare (hg : Consistent g) (hd : g.Fresh d) {settings : Settings}
    (hnames : d.head.metadataName ∉ settings.wellKnown.all) :
    prepare settings (g.declare d).2 = prepare settings g := by
  have hlookup : ∀ name ∈ settings.wellKnown.all,
      (g.declare d).2.lookup name = g.lookup name := by
    intro name hname
    have hne : name ≠ d.head.metadataName := fun e => hnames (e ▸ hname)
    exact declare_lookup hg hd.issued hne
  rw [prepare, WellKnown.resolve_congr hlookup, prepare]

/-! ## Reports -/

/-- The second list is the first one with elements of a kind added, at any places. -/
def Gains {α : Type} (P : α → Prop) (xs ys : List α) : Prop :=
  xs.Sublist ys ∧ ∃ extra, ys.Perm (xs ++ extra) ∧ ∀ a ∈ extra, P a

section Gains

variable {α : Type} {P : α → Prop} {xs ys zs us : List α}

theorem Gains.of_append (h : ∀ a ∈ ys, P a) : Gains P xs (xs ++ ys) :=
  ⟨List.sublist_append_left xs ys, ys, .refl _, h⟩

theorem Gains.append (h : Gains P xs ys) (h' : Gains P zs us) : Gains P (xs ++ zs) (ys ++ us) := by
  obtain ⟨hsub, extra, hperm, hextra⟩ := h
  obtain ⟨hsub', extra', hperm', hextra'⟩ := h'
  refine ⟨hsub.append hsub', extra ++ extra', ?_, fun a ha => ?_⟩
  · calc (ys ++ us).Perm ((xs ++ extra) ++ (zs ++ extra')) := hperm.append hperm'
      _ = xs ++ ((extra ++ zs) ++ extra') := by simp only [List.append_assoc]
      List.Perm _ (xs ++ ((zs ++ extra) ++ extra')) :=
        .append_left _ (.append_right _ List.perm_append_comm)
      _ = (xs ++ zs) ++ (extra ++ extra') := by simp only [List.append_assoc]
  · rcases List.mem_append.mp ha with ha | ha
    · exact hextra a ha
    · exact hextra' a ha

end Gains

/-! ## Contracts -/

private theorem eq_of_renamed_id {tys tys' : List TypeId}
    (h : List.Forall₂ (g.Renamed id) tys tys') :
    tys' = tys := by
  have heq : List.Forall₂ Eq tys tys' := h.imp fun _ _ hty => hty.2
  rw [List.forall₂_eq_eq_eq] at heq
  exact heq.symm

private theorem eq_of_renamedGroup_id {groups groups' : List (String × List TypeId)}
    (h : List.Forall₂ (RenamedGroup g id) groups groups') : groups' = groups := by
  have heq : List.Forall₂ Eq groups groups' := h.imp fun e e' he =>
    (Prod.ext he.1 (eq_of_renamed_id he.2)).symm
  rw [List.forall₂_eq_eq_eq] at heq
  exact heq.symm

section Declare

variable (hg : Consistent g) (hd : g.Fresh d) (hw : WellKnown.Renamed g id w w)
include hg hd hw

/-- The new type is the last one that may carry a marker. -/
theorem marked_declare (scope : Scope) (role : Role) :
    ∃ new, new.Sublist [g.nextType] ∧
      marked (g.declare d).2 w scope role = marked g w scope role ++ new := by
  obtain ⟨new, hsub, hin⟩ := declare_declaredIn hg hd.issued scope
  have hsame : List.Forall₂ (g.Renamed id) (g.declaredIn scope) (g.declaredIn scope) :=
    List.forall₂_same.mpr fun ty hty => ⟨hg.issued_of_declaredIn hty, rfl⟩
  have hold := eq_of_renamed_id ((hd.embedding hg).marked hw role hsame)
  have hsplit : marked (g.declare d).2 w scope role = marked g w scope role ++
      (new.filter fun ty => (g.declare d).2.hasAttribute? ty (markerOf w role) == some true).filter
        fun ty => (g.declare d).2.kind? ty == some .interface := by
    rw [marked, annotated, hin, List.filter_append, List.filter_append, hold]
    rfl
  exact ⟨_, (List.filter_sublist.trans List.filter_sublist).trans hsub, hsplit⟩

omit hw in
/-- No group has the name of the new type. -/
theorem candidates_ne {group : String × List TypeId} (hgroup : group ∈ candidates g w scope role) :
    group.1 ≠ d.head.metadataName := by
  have hgrouped := groupByName_grouped g (marked g w scope role)
  obtain ⟨ty, hty⟩ := List.exists_mem_of_ne_nil _ (hgrouped.nonempty group hgroup)
  obtain ⟨hmarked, hname⟩ := (mem_candidate hgroup).mp hty
  have hunused := hd.unused ty (hg.toListed.issued (mem_declared_of_marked hmarked))
  intro heq
  exact hunused (heq ▸ hname)

private theorem candidates_declare (scope : Scope) (role : Role) :
    ∃ new, new.Sublist [(d.head.metadataName, [g.nextType])] ∧
      candidates (g.declare d).2 w scope role = candidates g w scope role ++ new := by
  obtain ⟨new, hsub, hmarked⟩ := marked_declare hg hd hw scope role
  have hsame : List.Forall₂ (g.Renamed id) (marked g w scope role) (marked g w scope role) :=
    List.forall₂_same.mpr fun ty hty =>
      ⟨hg.toListed.issued (mem_declared_of_marked hty), rfl⟩
  have hold : groupByName (g.declare d).2 (marked g w scope role) = candidates g w scope role :=
    eq_of_renamedGroup_id ((hd.embedding hg).groupByName hsame)
  rw [candidates, hmarked]
  rcases List.sublist_singleton.mp hsub with rfl | rfl
  · exact ⟨[], List.nil_sublist _, by rw [List.append_nil, List.append_nil, hold]⟩
  · have hfree : d.head.metadataName ∉ (candidates g w scope role).map (·.1) := by
      intro hmem
      obtain ⟨group, hgroup, hkey⟩ := List.mem_map.mp hmem
      exact candidates_ne hg hd hgroup hkey
    refine ⟨[(d.head.metadataName, [g.nextType])], List.Sublist.refl _, ?_⟩
    rw [← addToGroup_of_not_mem hfree, ← hold, groupByName, List.foldl_append, ← groupByName,
      List.foldl_cons, List.foldl_nil, metadataName?_of_declared (form?_declare g d)]

end Declare

/-- The names of a contract are those of a declared type without type parameters. -/
structure TypeHead.Names (head : TypeHead) (qualifiedName nameSpace : String) : Prop where
  plain : head.arity = 0
  qualifiedName : qualifiedName = head.qualifiedName
  nameSpace : nameSpace = head.nameSpace

theorem TypeHead.Names.metadataName {head : TypeHead} {q ns : String} (h : head.Names q ns) :
    q = head.metadataName := by
  rw [h.qualifiedName, TypeHead.metadataName, if_pos h.plain]

/-- What comes of the new type alone. -/
theorem ofFragments?_declare {o : Option Contract} {ds : List Diagnostic}
    (h : ofFragments? (g.declare d).2 w style role [g.nextType] = some (o, ds)) :
    (∀ c ∈ o, d.head.Names c.qualifiedName c.nameSpace) ∧
      ∀ r ∈ ds, r.subject = d.head.qualifiedName := by
  have new := form?_declare g d
  obtain ⟨first, q, hfirst, hq, hcases⟩ := ofFragments?_cases h
  cases hfirst
  rw [qualifiedName?_of_declared new] at hq
  cases hq
  rcases hcases with ⟨_, rfl, rfl⟩ | ⟨hplain, _, _, _, _, _, _, _, hns, rfl, rfl⟩
  · refine ⟨by simp, fun r hr => ?_⟩
    cases List.mem_singleton.mp hr
    rfl
  · have harity : d.head.arity = 0 := by
      have hgeneric := hplain g.nextType List.mem_cons_self
      rw [isGeneric?_of_declared new] at hgeneric
      simpa using hgeneric
    rw [nameSpace?_of_declared new] at hns
    cases hns
    refine ⟨fun c hc => ?_, fun r hr => rejectCollisions_subject hr⟩
    cases hc
    exact ⟨harity, rfl, rfl⟩

section Roles

variable (hg : Consistent g) (hd : g.Fresh d) (hw : WellKnown.Renamed g id w w)
include hg hd hw

/-- The contracts and reports of discovery stay, and those of the new type follow. -/
theorem discoverRole?_declare {cs cs' : List Contract} {ds ds' : List Diagnostic}
    (h : discoverRole? g w scope style role = some (cs, ds))
    (h' : discoverRole? (g.declare d).2 w scope style role = some (cs', ds')) :
    ∃ old new reports, cs' = old ++ new ∧ ds' = ds ++ reports ∧
      List.Forall₂ (Contract.Renamed g id) cs old ∧
      (∀ c ∈ new, d.head.Names c.qualifiedName c.nameSpace) ∧
      ∀ r ∈ reports, r.subject = d.head.qualifiedName := by
  obtain ⟨found, hfound, rfl, rfl⟩ := discoverRole?_eq_some h
  obtain ⟨found', hfound', rfl, rfl⟩ := discoverRole?_eq_some h'
  obtain ⟨groups, hgroups, hcandidates⟩ := candidates_declare hg hd hw scope role
  rw [hcandidates] at hfound'
  obtain ⟨us, vs, rfl, hus, hvs⟩ := forall₂_append_split hfound'
  have hgrouped := groupByName_grouped g (marked g w scope role)
  have hsame : List.Forall₂ (fun e e' => RenamedGroup g id e e' ∧ e.2 ≠ [])
      (candidates g w scope role) (candidates g w scope role) := by
    refine List.forall₂_same.mpr fun e he => ⟨⟨rfl, ?_⟩, hgrouped.nonempty e he⟩
    refine List.forall₂_same.mpr fun ty hty => ⟨?_, rfl⟩
    exact hg.toListed.issued (mem_declared_of_marked ((mem_candidate he).mp hty).1)
  -- the groups that were there have the same contracts and reports
  obtain ⟨_, _, hrun, hrun', hold, hreports⟩ := (hd.embedding hg).ofGroups hw style role hsame
  cases hrun.symm.trans (mapM_eq_some_iff.mpr hfound)
  cases hrun'.symm.trans (mapM_eq_some_iff.mpr hus)
  have hnew : ∀ f ∈ vs, (∀ c ∈ f.1, d.head.Names c.qualifiedName c.nameSpace) ∧
      ∀ r ∈ f.2, r.subject = d.head.qualifiedName := by
    intro f hf
    obtain ⟨group, hgroup, hfragments⟩ := exists_of_mem_right hvs hf
    cases List.mem_singleton.mp (hgroups.subset hgroup)
    exact ofFragments?_declare hfragments
  refine ⟨us.filterMap (·.1), vs.filterMap (·.1), vs.flatMap (·.2), List.filterMap_append, ?_, hold,
    fun c hc => ?_, fun r hr => ?_⟩
  · rw [List.flatMap_append, hreports]
  · obtain ⟨f, hf, hc⟩ := List.mem_filterMap.mp hc
    exact (hnew f hf).1 c hc
  · obtain ⟨f, hf, hr⟩ := List.mem_flatMap.mp hr
    exact (hnew f hf).2 r hr

/-- Bound contracts and reports of binding stay, and those of the new type follow. -/
theorem bindAll?_declare {cs old new : List Contract} {bcs bcs' : List BoundContract}
    {rs rs' : List Diagnostic} (hold : List.Forall₂ (Contract.Renamed g id) cs old)
    (hnew : ∀ c ∈ new, d.head.Names c.qualifiedName c.nameSpace)
    (h : bindAll? g w rules cs = some (bcs, rs))
    (h' : bindAll? (g.declare d).2 w rules (old ++ new) = some (bcs', rs')) :
    ∃ added reports, bcs' = bcs ++ added ∧ rs' = rs ++ reports ∧
      (∀ bc ∈ added, d.head.Names bc.qualifiedName bc.nameSpace) ∧
      ∀ r ∈ reports, r.subject = d.head.qualifiedName := by
  obtain ⟨bound, hbound, rfl, rfl⟩ := bindAllBy?_eq_some h'
  obtain ⟨us, vs, rfl, hus, hvs⟩ := forall₂_append_split hbound
  have hold' : bindAll? (g.declare d).2 w rules old = some (us.map (·.1), us.flatMap (·.2)) :=
    bindAllBy?_of_forall₂ hus
  have hsame := ((hd.embedding hg).bindAll? hw rules hold).eq
  rw [hold', h, Option.some.injEq, Prod.mk.injEq] at hsame
  refine ⟨vs.map (·.1), vs.flatMap (·.2), ?_, ?_, fun bc hbc => ?_, fun r hr => ?_⟩
  · rw [List.map_append, hsame.1]
  · rw [List.flatMap_append, hsame.2]
  · obtain ⟨⟨bc, reports⟩, hmem, rfl⟩ := List.mem_map.mp hbc
    obtain ⟨c, hc, hbind⟩ := exists_of_mem_right hvs hmem
    obtain ⟨_, hns, hq, _⟩ := bindBy?_eq_some hbind
    rw [hq, hns]
    exact hnew c hc
  · obtain ⟨⟨bc, reports⟩, hmem, hr⟩ := List.mem_flatMap.mp hr
    obtain ⟨c, hc, hbind⟩ := exists_of_mem_right hvs hmem
    rw [bindBy?_subject hbind hr, (hnew c hc).qualifiedName]

/-- Both stages of a role: the contract of the new type comes last, and all further reports name the
new type. -/
theorem role_declare {cs cs' : List Contract} {bcs bcs' : List BoundContract}
    {ds ds' rs rs' : List Diagnostic}
    (hfound : discoverRole? g w scope style role = some (cs, ds))
    (hbound : bindAll? g w rules cs = some (bcs, rs))
    (hfound' : discoverRole? (g.declare d).2 w scope style role = some (cs', ds'))
    (hbound' : bindAll? (g.declare d).2 w rules cs' = some (bcs', rs')) :
    ∃ added, bcs' = bcs ++ added ∧
      (∀ bc ∈ added, d.head.Names bc.qualifiedName bc.nameSpace) ∧
      Gains (fun r => r.subject = d.head.qualifiedName) ds ds' ∧
      Gains (fun r => r.subject = d.head.qualifiedName) rs rs' := by
  obtain ⟨old, new, reports, rfl, rfl, hold, hnew, hreports⟩ :=
    discoverRole?_declare hg hd hw hfound hfound'
  obtain ⟨added, reports', rfl, rfl, hadded, hreports'⟩ :=
    bindAll?_declare hg hd hw hold hnew hbound hbound'
  exact ⟨added, rfl, hadded, .of_append hreports, .of_append hreports'⟩

end Roles

/-! ## Files -/

/-- The interface file of a module. The index file, which is the last one, is none. -/
def Output.interfaceFile? (settings : Settings) (out : Output) (module : String) :
    Option SourceFile :=
  out.files.dropLast.find? fun f => f.path == Client.pathOf settings (module ++ ".ts")

namespace Generator

open Client Conservation

variable {x : Generator} {b b' : Bindings}

private theorem interfaceFile?_emit (x : Generator) (b : Bindings) (module : String) :
    (emit x.settings b).interfaceFile? x.settings module =
      if written (b.hubs ++ b.receivers) module = [] then none
      else some ((InterfaceFile.ofContracts x.settings.output.transportModule module
        (written (b.hubs ++ b.receivers) module)).toSource x.settings) := by
  have hfiles : (emit x.settings b).files.dropLast = (files x b).map (·.toSource x.settings) :=
    List.dropLast_concat
  rw [Output.interfaceFile?, hfiles]
  split
  · rename_i hnone
    refine List.find?_eq_none.mpr fun source hsource hpath => ?_
    obtain ⟨file, hfile, rfl⟩ := List.mem_map.mp hsource
    obtain ⟨other, hother, rfl⟩ := mem_all.mp hfile
    cases pathOf_module_inj.mp (beq_iff_eq.mp hpath)
    exact hother hnone
  · rename_i hsome
    have hfile : InterfaceFile.ofContracts x.settings.output.transportModule module
        (written (b.hubs ++ b.receivers) module) ∈ files x b := mem_all.mpr ⟨module, hsome, rfl⟩
    exact find?_of_nodup (sourcePaths_nodup x b) (List.mem_map_of_mem hfile)

section Declare

variable (hg : g.Reachable) (hd : g.Fresh d) (hb : x.bindings? g w = some b)
include hg hd hb

/-- No contract of a run has the name of the new type. -/
theorem qualifiedName_ne {bc : BoundContract} (hbc : bc ∈ b.hubs ++ b.receivers) :
    bc.qualifiedName ≠ d.head.metadataName := by
  obtain ⟨role, group, hgroup, hkey, _⟩ := bindings?_comesFrom hg.coherent hb hbc
  rw [← hkey]
  exact candidates_ne hg.consistent hd hgroup

/-- Each role gets the contract of the new type at most, as its last one. -/
theorem bindings?_declare (hw : prepare x.settings g = .ok w)
    (hb' : x.bindings? (g.declare d).2 w = some b') :
    ∃ hubs receivers, b'.hubs = b.hubs ++ hubs ∧ b'.receivers = b.receivers ++ receivers ∧
      (∀ bc ∈ hubs ++ receivers, d.head.Names bc.qualifiedName bc.nameSpace) ∧
      Gains (fun r => r.subject = d.head.qualifiedName) b.diagnostics b'.diagnostics := by
  have hrenamed : WellKnown.Renamed g id w w := by
    have hprepare := (Translation.refl hg.consistent).prepare x.settings
    rw [hw] at hprepare
    cases hprepare with
    | ok h => exact h
  obtain ⟨found, _, _, hrun, hhubs, hreceivers, hdiagnostics⟩ := bindings?_eq_some hb
  obtain ⟨_, _, hhubs₀, hreceivers₀, hfound⟩ := run?_eq_some hrun
  obtain ⟨found', _, _, hrun', hhubs', hreceivers', hdiagnostics'⟩ := bindings?_eq_some hb'
  obtain ⟨_, _, hhubs₀', hreceivers₀', hfound'⟩ := run?_eq_some hrun'
  obtain ⟨hubs, ehubs, hhubNames, gh, gh'⟩ :=
    role_declare hg.consistent hd hrenamed hhubs₀ hhubs hhubs₀' hhubs'
  obtain ⟨receivers, ereceivers, hreceiverNames, gr, gr'⟩ :=
    role_declare hg.consistent hd hrenamed hreceivers₀ hreceivers hreceivers₀' hreceivers'
  refine ⟨hubs, receivers, ehubs, ereceivers, fun bc hbc => ?_, ?_⟩
  · rcases List.mem_append.mp hbc with hbc | hbc
    · exact hhubNames bc hbc
    · exact hreceiverNames bc hbc
  · rw [hdiagnostics, hdiagnostics', hfound, hfound']
    exact ((gh.append gr).append gh').append gr'

variable {hubs receivers : List BoundContract}
  (hnew : ∀ bc ∈ hubs ++ receivers, d.head.Names bc.qualifiedName bc.nameSpace)
include hnew

/-- Contracts under other names than that of the new type are those that were there. -/
theorem contracts_without_new : ((b.hubs ++ hubs) ++ (b.receivers ++ receivers)).filter
    (fun c => c.qualifiedName ≠ d.head.metadataName) = b.hubs ++ b.receivers := by
  have hold : ∀ cs : List BoundContract, (∀ c ∈ cs, c ∈ b.hubs ++ b.receivers) →
      cs.filter (fun c => c.qualifiedName ≠ d.head.metadataName) = cs := by
    intro cs hcs
    refine List.filter_eq_self.mpr fun c hc => decide_eq_true ?_
    exact qualifiedName_ne hg hd hb (hcs c hc)
  have hadded : ∀ cs : List BoundContract, (∀ c ∈ cs, c ∈ hubs ++ receivers) →
      cs.filter (fun c => c.qualifiedName ≠ d.head.metadataName) = [] := by
    intro cs hcs
    refine List.filter_eq_nil_iff.mpr fun c hc hne => ?_
    exact of_decide_eq_true hne (hnew c (hcs c hc)).metadataName
  have hhubs := hold b.hubs fun _ => List.mem_append_left _
  have hreceivers := hold b.receivers fun _ => List.mem_append_right _
  have hhubs' := hadded hubs fun _ => List.mem_append_left _
  have hreceivers' := hadded receivers fun _ => List.mem_append_right _
  rw [List.filter_append, List.filter_append, List.filter_append, hhubs, hreceivers, hhubs',
    hreceivers', List.append_nil, List.append_nil]

/-- What is written in other modules stays. -/
theorem written_declare {module : String} (hmodule : module ≠ moduleName d.head.nameSpace) :
    written ((b.hubs ++ hubs) ++ (b.receivers ++ receivers)) module =
      written (b.hubs ++ b.receivers) module := by
  rw [← contracts_without_new hg hd hb hnew]
  refine (written_filter fun c hc hname => ?_).symm
  have hmem : c ∈ hubs ++ receivers := by
    have hnot : c ∉ b.hubs ++ b.receivers := fun h => qualifiedName_ne hg hd hb h hname
    simp only [List.mem_append] at hc hnot ⊢
    tauto
  rw [(hnew c hmem).nameSpace]
  exact Ne.symm hmodule

end Declare

/-- What a declaration with some head does to the result of a run: interface files of modules other
than its own stay as they are, and so does what is reported, apart from reports about itself. -/
structure Local (settings : Settings) (head : TypeHead) (out out' : Output) : Prop where
  files : ∀ module, module ≠ moduleName head.nameSpace →
    out'.interfaceFile? settings module = out.interfaceFile? settings module
  diagnostics : Gains (fun r => r.subject = head.qualifiedName) out.diagnostics out'.diagnostics

/-- A run that succeeds also succeeds with one more type declared under a new name, and the new type
has a local effect. -/
theorem generate?_local (hg : g.Reachable) (hd : g.Fresh d)
    (hnames : d.head.metadataName ∉ x.settings.wellKnown.all) {out : Output}
    (h : x.generate? g = some (.ok out)) :
    ∃ out', x.generate? (g.declare d).2 = some (.ok out') ∧ Local x.settings d.head out out' := by
  obtain ⟨w, b, hw, hb, rfl⟩ := generate?_eq_ok h
  have hchange : Change g (g.declare d).2 := .declare d hd.issued
  have hw' : prepare x.settings (g.declare d).2 = .ok w :=
    (prepare_declare hg.consistent hd hnames).trans hw
  obtain ⟨b', hb', hrun⟩ := generate?_of_prepare (hchange.consistent hg.consistent) hw'
  obtain ⟨hubs, receivers, ehubs, ereceivers, hnew, hgains⟩ := bindings?_declare hg hd hb hw hb'
  refine ⟨_, hrun, fun module hmodule => ?_, hgains⟩
  rw [interfaceFile?_emit, interfaceFile?_emit, ehubs, ereceivers,
    written_declare hg hd hb hnew hmodule]

/-- A hub and receiver in a module of its own, with the methods of another one. -/
def sideChat : Declaration :=
  { head := { kind := .interface, nameSpace := "App.Side", name := "IChat" }
    attributes := [⟨0⟩, ⟨1⟩], bases := [⟨4⟩] }

theorem mixedProgram_local :
    mixedProgram.Reachable ∧ mixedProgram.Fresh sideChat ∧
      sideChat.head.metadataName ∉ ({} : Generator).settings.wellKnown.all ∧
      ∃ out out', ({} : Generator).generate? mixedProgram = some (.ok out) ∧
        ({} : Generator).generate? (mixedProgram.declare sideChat).2 = some (.ok out') ∧
        out.files.map (·.path) = ["hubs/App.ts", "hubs/index.ts"] ∧
        out'.files.map (·.path) = ["hubs/App.ts", "hubs/App.Side.ts", "hubs/index.ts"] ∧
        out'.diagnostics.map (·.subject) =
          ["App.IChat", "App.IBox", "App.Side.IChat", "App.IChat", "App.Side.IChat", "App.IChat",
            "App.IChat", "App.Side.IChat", "App.Side.IChat", "App.IChat", "App.IChat",
            "App.Side.IChat", "App.Side.IChat"] ∧
        Local ({} : Generator).settings sideChat.head out out' := by
  have hnames : ∀ i < mixedProgram.types.size,
      mixedProgram.metadataName? ⟨i⟩ ≠ some sideChat.head.metadataName := by decide +kernel
  have hfresh : mixedProgram.Fresh sideChat := ⟨by decide +kernel, fun ty hty => hnames _ hty⟩
  obtain ⟨out', hrun', hlocal⟩ :=
    generate?_local (x := {}) mixedProgram_reachable hfresh (by decide +kernel) rfl
  refine ⟨mixedProgram_reachable, hfresh, by decide +kernel, _, out', rfl, hrun', by decide +kernel,
    ?_, ?_, hlocal⟩
  · cases hrun'
    decide +kernel
  · cases hrun'
    decide +kernel

end Generator

end HubBindings
