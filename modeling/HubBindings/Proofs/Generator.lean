import HubBindings.Generator
import HubBindings.Proofs.Binding
import HubBindings.Proofs.Contract

/-!
A run that succeeds, taken apart into its stages: settings and well-known types, discovery, binding,
files.
-/

namespace HubBindings.Generator

variable {x : Generator} {g : TypeGraph} {w : WellKnown}

theorem prepare_ok {settings : Settings} (h : prepare settings g = .ok w) :
    WellKnown.resolve g settings.wellKnown = .ok w := by
  unfold prepare at h
  cases hv : settings.validate with
  | error e => rw [hv] at h; cases h
  | ok u => rw [hv] at h; exact h

theorem generateBy?_eq_ok {settings : Settings} {render : WellKnown → Renderer} {out : Output}
    (h : generateBy? settings g render = some (.ok out)) :
    ∃ w b, prepare settings g = .ok w ∧ bindingsBy? settings g w (render w) = some b ∧
      out = emit settings b := by
  unfold generateBy? at h
  cases hp : prepare settings g with
  | error e => rw [hp] at h; cases h
  | ok w =>
    rw [hp] at h
    obtain ⟨b, hb, e⟩ := Option.map_eq_some_iff.mp h
    cases e
    exact ⟨w, b, rfl, hb, rfl⟩

theorem generate?_eq_ok {out : Output} (h : x.generate? g = some (.ok out)) :
    ∃ w b, prepare x.settings g = .ok w ∧ x.bindings? g w = some b ∧ out = emit x.settings b :=
  generateBy?_eq_ok h

theorem bindingsBy?_eq_some {settings : Settings} {render : Renderer} {b : Bindings}
    (h : bindingsBy? settings g w render = some b) :
    ∃ found hubReports receiverReports,
      Discovery.run? g w (scope settings) settings.methodStyle = some found ∧
      Binding.bindAllBy? g w render found.hubs = some (b.hubs, hubReports) ∧
      Binding.bindAllBy? g w render found.receivers = some (b.receivers, receiverReports) ∧
      b.diagnostics = found.diagnostics ++ hubReports ++ receiverReports := by
  unfold bindingsBy? at h
  obtain ⟨found, hf, h⟩ := Option.bind_eq_some_iff.mp h
  obtain ⟨⟨hubs, hubReports⟩, hh, h⟩ := Option.bind_eq_some_iff.mp h
  obtain ⟨⟨receivers, receiverReports⟩, hr, h⟩ := Option.bind_eq_some_iff.mp h
  cases h
  exact ⟨found, hubReports, receiverReports, hf, hh, hr, rfl⟩

theorem bindings?_eq_some {b : Bindings} (h : x.bindings? g w = some b) :
    ∃ found hubReports receiverReports,
      Discovery.run? g w (scope x.settings) x.settings.methodStyle = some found ∧
      Binding.bindAll? g w x.allRules found.hubs = some (b.hubs, hubReports) ∧
      Binding.bindAll? g w x.allRules found.receivers = some (b.receivers, receiverReports) ∧
      b.diagnostics = found.diagnostics ++ hubReports ++ receiverReports :=
  bindingsBy?_eq_some h

/-! ## Bound contracts of a role -/

open Contract Binding Sequencing

variable {role : Role} {bcs : List BoundContract} {bc : BoundContract}

/-- The contracts of a role as a run binds them. -/
def BoundRole (x : Generator) (g : TypeGraph) (w : WellKnown) (role : Role)
    (bcs : List BoundContract) : Prop :=
  ∃ cs discovered bound,
    discoverRole? g w (scope x.settings) x.settings.methodStyle role = some (cs, discovered) ∧
    bindAll? g w x.allRules cs = some (bcs, bound)

/-- A bound contract comes from a group of marked interfaces. -/
def ComesFrom (x : Generator) (g : TypeGraph) (w : WellKnown) (role : Role)
    (group : String × List TypeId) (bc : BoundContract) : Prop :=
  ∃ c discovered bound,
    ofFragments? g w x.settings.methodStyle role group.2 = some (some c, discovered) ∧
    bind? g w x.allRules c = some (bc, bound)

theorem bindings?_boundRole {b : Bindings} (h : x.bindings? g w = some b) :
    BoundRole x g w .hub b.hubs ∧ BoundRole x g w .receiver b.receivers := by
  obtain ⟨found, _, _, hrun, hhubs, hreceivers, _⟩ := bindings?_eq_some h
  obtain ⟨_, _, hhubs', hreceivers', _⟩ := run?_eq_some hrun
  exact ⟨⟨_, _, _, hhubs', hhubs⟩, ⟨_, _, _, hreceivers', hreceivers⟩⟩

theorem BoundRole.comesFrom (h : BoundRole x g w role bcs) :
    ∃ groups, groups.Sublist (candidates g w (scope x.settings) role) ∧
      List.Forall₂ (ComesFrom x g w role) groups bcs := by
  obtain ⟨cs, _, _, hfound, hbound⟩ := h
  obtain ⟨found, hf, rfl, _⟩ := discoverRole?_eq_some hfound
  obtain ⟨bound, hb, rfl, _⟩ := bindAllBy?_eq_some hbound
  obtain ⟨groups, hsub, hall⟩ := forall₂_filterMap hf hb
  refine ⟨groups, hsub, List.forall₂_map_right_iff.mpr (hall.imp ?_)⟩
  rintro group ⟨bc, reports⟩ ⟨⟨o, discovered⟩, c, hc, ho, hbc⟩
  cases ho
  exact ⟨c, discovered, reports, hc, hbc⟩

theorem ComesFrom.head (hg : g.Coherent) {group : String × List TypeId}
    (hgroup : group ∈ candidates g w (scope x.settings) role) (h : ComesFrom x g w role group bc) :
    ∃ head : TypeHead, bc.name = head.name ∧ bc.nameSpace = head.nameSpace ∧
      bc.qualifiedName = head.qualifiedName ∧ bc.qualifiedName = group.1 := by
  obtain ⟨c, _, _, hc, hbind⟩ := h
  obtain ⟨head, hname, hns, hq, hkey⟩ := ofFragments?_head hg hgroup hc
  obtain ⟨hname', hns', hq', _⟩ := bindBy?_eq_some hbind
  exact ⟨head, hname'.trans hname, hns'.trans hns, hq'.trans hq, hq'.trans hkey⟩

theorem BoundRole.exists_group (h : BoundRole x g w role bcs) (hg : g.Coherent) (hbc : bc ∈ bcs) :
    ∃ group ∈ candidates g w (scope x.settings) role, group.1 = bc.qualifiedName ∧
      ComesFrom x g w role group bc := by
  obtain ⟨groups, hsub, hall⟩ := h.comesFrom
  obtain ⟨group, hgroup, hcomes⟩ := exists_of_mem_right hall hbc
  obtain ⟨_, _, _, _, hkey⟩ := hcomes.head hg (hsub.subset hgroup)
  exact ⟨group, hsub.subset hgroup, hkey.symm, hcomes⟩

/-- A group without a generic fragment has a contract. -/
theorem BoundRole.exists_contract (h : BoundRole x g w role bcs) {group : String × List TypeId}
    (hgroup : group ∈ candidates g w (scope x.settings) role)
    (hplain : ∀ f ∈ group.2, g.isGeneric? f ≠ some true) :
    ∃ bc ∈ bcs, ComesFrom x g w role group bc := by
  obtain ⟨cs, _, _, hfound, hbound⟩ := h
  obtain ⟨found, hf, rfl, _⟩ := discoverRole?_eq_some hfound
  obtain ⟨bound, hb, rfl, _⟩ := bindAllBy?_eq_some hbound
  obtain ⟨⟨o, discovered⟩, hmem, ho⟩ := exists_of_mem_left hf hgroup
  obtain ⟨_, _, _, _, ⟨⟨f, hf, hgeneric⟩, _, _⟩ | ⟨_, _, _, _, _, _, _, _, _, rfl, _⟩⟩ :=
    ofFragments?_cases ho
  · exact absurd hgeneric (hplain f hf)
  · obtain ⟨⟨bc, reports⟩, hbc, hbind⟩ :=
      exists_of_mem_left hb (List.mem_filterMap.mpr ⟨_, hmem, rfl⟩)
    exact ⟨bc, List.mem_map_of_mem hbc, _, discovered, reports, ho, hbind⟩

/-- A contract has the names of its first fragment, and no fragment is generic. -/
theorem ComesFrom.first {group : String × List TypeId} (h : ComesFrom x g w role group bc) :
    (∀ f ∈ group.2, g.isGeneric? f ≠ some true) ∧
      ∃ first, group.2.head? = some first ∧ g.name? first = some bc.name ∧
        g.nameSpace? first = some bc.nameSpace := by
  obtain ⟨c, _, _, hc, hbind⟩ := h
  obtain ⟨hname', hns', _⟩ := bindBy?_eq_some hbind
  obtain ⟨first, _, hfirst, _, ⟨_, e, _⟩ | ⟨hplain, _, _, _, _, _, _, hname, hns, e, _⟩⟩ :=
    ofFragments?_cases hc
  · cases e
  · cases e
    exact ⟨hplain, first, hfirst, hname'.symm ▸ hname, hns'.symm ▸ hns⟩

/-- No two contracts of a role have the same qualified name. -/
theorem BoundRole.nodup (h : BoundRole x g w role bcs) (hg : g.Coherent) :
    (bcs.map (·.qualifiedName)).Nodup := by
  obtain ⟨groups, hsub, hall⟩ := h.comesFrom
  have hnames : groups.map (·.1) = bcs.map (·.qualifiedName) := by
    refine map_eq_map_of_forall₂ (forall₂_imp_of_mem hall fun group hgroup bc _ hcomes => ?_)
    obtain ⟨_, _, _, _, hkey⟩ := hcomes.head hg (hsub.subset hgroup)
    exact hkey.symm
  rw [← hnames]
  exact (groupByName_grouped g _).names.sublist (hsub.map _)

/-- The methods of a contract have different generated names, each made from its declared name. -/
theorem BoundRole.methodNames (h : BoundRole x g w role bcs) (hg : g.Coherent) (hbc : bc ∈ bcs) :
    (bc.methods.map (·.localName)).Nodup ∧
      ∀ m ∈ bc.methods, m.localName = x.settings.methodStyle.apply m.wireName := by
  obtain ⟨_, _, _, c, _, _, hc, hbind⟩ := h.exists_group hg hbc
  obtain ⟨ms, hms, hall⟩ := bindBy?_binds hbind
  obtain ⟨_, _, _, _, hdescribed⟩ := ofFragments?_methods hc
  have hnames : bc.methods.map (·.localName) = ms.map (·.localName) :=
    (map_eq_map_of_forall₂ (hall.imp fun _ _ hb => hb.localName.symm)).symm
  refine ⟨hnames ▸ (ofFragments?_localNames hc).sublist (hms.map _), fun bm hbm => ?_⟩
  obtain ⟨m, hm, hb⟩ := exists_of_mem_right hall hbm
  obtain ⟨decl, _, _, _, e⟩ := describe?_eq_some (hdescribed m (hms.subset hm))
  rw [hb.localName, hb.wireName, e]

/-- The declared names are different too. -/
theorem BoundRole.wireNames_nodup (h : BoundRole x g w role bcs) (hg : g.Coherent)
    (hbc : bc ∈ bcs) : (bc.methods.map (·.wireName)).Nodup := by
  obtain ⟨hnodup, hstyle⟩ := h.methodNames hg hbc
  have hnames : bc.methods.map (·.localName) =
      (bc.methods.map (·.wireName)).map x.settings.methodStyle.apply := by
    rw [List.map_map]
    exact List.map_congr_left hstyle
  rw [hnames] at hnodup
  exact List.Pairwise.of_map _ (fun _ _ hne e => hne (congrArg _ e)) hnodup

/-- Every contract of a run comes from a group of marked interfaces. -/
theorem bindings?_comesFrom {b : Bindings} (hg : g.Coherent) (hb : x.bindings? g w = some b)
    (hbc : bc ∈ b.hubs ++ b.receivers) :
    ∃ role, ∃ group ∈ candidates g w (scope x.settings) role, group.1 = bc.qualifiedName ∧
      ComesFrom x g w role group bc := by
  obtain ⟨hhubs, hreceivers⟩ := bindings?_boundRole hb
  rcases List.mem_append.mp hbc with hbc | hbc
  · exact ⟨.hub, hhubs.exists_group hg hbc⟩
  · exact ⟨.receiver, hreceivers.exists_group hg hbc⟩

/-- Contracts with one qualified name are of one interface, so they have all names in common. -/
theorem names_of_qualifiedName {b : Bindings} (hg : g.Coherent) (hb : x.bindings? g w = some b)
    {c d : BoundContract} (hc : c ∈ b.hubs ++ b.receivers) (hd : d ∈ b.hubs ++ b.receivers)
    (hq : c.qualifiedName = d.qualifiedName) : c.name = d.name ∧ c.nameSpace = d.nameSpace := by
  obtain ⟨_, group, hgroup, hkey, hcomes⟩ := bindings?_comesFrom hg hb hc
  obtain ⟨_, group', hgroup', hkey', hcomes'⟩ := bindings?_comesFrom hg hb hd
  have hfragments : group'.2 = group.2 := by
    rw [candidates_eq hg hgroup', candidates_eq hg hgroup, hkey, hkey', hq]
  obtain ⟨_, first, hfirst, hname, hns⟩ := hcomes.first
  obtain ⟨_, first', hfirst', hname', hns'⟩ := hcomes'.first
  rw [hfragments] at hfirst'
  cases hfirst.symm.trans hfirst'
  exact ⟨Option.some.inj (hname.symm.trans hname'), Option.some.inj (hns.symm.trans hns')⟩

/-- Contracts with one name in one namespace have one qualified name. -/
theorem qualifiedName_of_names {b : Bindings} (hg : g.Coherent) (hb : x.bindings? g w = some b)
    {c d : BoundContract} (hc : c ∈ b.hubs ++ b.receivers) (hd : d ∈ b.hubs ++ b.receivers)
    (hname : c.name = d.name) (hns : c.nameSpace = d.nameSpace) :
    c.qualifiedName = d.qualifiedName := by
  obtain ⟨_, group, hgroup, _, hcomes⟩ := bindings?_comesFrom hg hb hc
  obtain ⟨_, group', hgroup', _, hcomes'⟩ := bindings?_comesFrom hg hb hd
  obtain ⟨head, hn, hs, hq, _⟩ := hcomes.head hg hgroup
  obtain ⟨head', hn', hs', hq', _⟩ := hcomes'.head hg hgroup'
  rw [hq, hq', TypeHead.qualifiedName, TypeHead.qualifiedName, ← hn, ← hn', ← hs, ← hs', hname, hns]

/-- An interface with both markers has the same methods in both roles. -/
theorem ofFragments?_twin (hg : g.Coherent) {scope : Scope} {style : NamingStyle} {role' : Role}
    {group group' : String × List TypeId} {c c' : Contract} {ds ds' : List Diagnostic}
    (hgroup : group ∈ candidates g w scope role) (hgroup' : group' ∈ candidates g w scope role')
    (hkey : group'.1 = group.1) (h : ofFragments? g w style role group.2 = some (some c, ds))
    (h' : ofFragments? g w style role' group'.2 = some (some c', ds')) :
    c' = { c with role := role' } := by
  have hfragments : group'.2 = group.2 := by
    rw [candidates_eq hg hgroup', candidates_eq hg hgroup, hkey]
  rw [hfragments] at h'
  exact ofFragments?_role h h'

end HubBindings.Generator
