import HubBindings.Proofs.Acceptance
import HubBindings.Proofs.Discovery
import HubBindings.Proofs.Members

/-!
Contracts against the declarations of their interfaces.

* `Merges` is what merging is for: the fragments of a contract are all declarations under its name,
  and no method of them is lost without a report;
* `candidates_of_load`: in a loaded graph all declarations under one name have one kind, so that a
  group holds every declaration of its name that is in scope;
* `flattened?_own` and `rejectCollisions_accounts`: no method of a fragment in scope is lost, and
  `flattened?_only`: those of the other declarations are not found;
* `fragments_merge_iff`: a contract is merged exactly if all declarations under its name are in
  scope. Markers are looked for in all of them, so that an interface with declarations in scope and
  out of scope is a contract with only the methods of the former.
-/

namespace HubBindings

open Sequencing TypeGraph

variable {g : TypeGraph}

/-! ## Kinds of declarations -/

namespace Manifest

variable {m : Manifest} {ty ty' : TypeId}

private theorem coreTypes_kind : ∀ h ∈ coreTypes, ∀ first ∈ coreTypes,
    first.metadataName = h.metadataName → first.kind = h.kind := by
  decide +kernel

private theorem not_conflicting_of_load (hload : m.load = some (.ok g)) : ¬ m.Conflicting := by
  obtain ⟨r, hr, hcases⟩ := m.load_meets
  cases hload.symm.trans hr
  rcases hcases with ⟨e, _, he⟩ | ⟨hnone, _⟩
  · cases he
  · rw [requirements, Requirement.firstError?_append, Option.or_eq_none_iff] at hnone
    exact kinds_agree_iff.mp hnone.1

/-- If no entry is in conflict, every type has the kind of the first type with its name. -/
theorem kind_of_first? (hagree : ¬ m.Conflicting) {h first : TypeHead} (hh : h ∈ m.heads)
    (hfirst : TypeHead.first? m.heads h.metadataName = some first) : h.kind = first.kind := by
  rcases List.mem_append.mp hh with hcore | hentry
  · -- the types of the runtime come first, so the first one with the name is among them
    obtain ⟨first', hfirst'⟩ := first?_isSome_of_mem hcore
    have hsame : first' = first := by
      rw [heads, TypeHead.first?, List.find?_append, ← TypeHead.first?, hfirst',
        Option.some_or] at hfirst
      exact Option.some.inj hfirst
    subst hsame
    have hname : first'.metadataName = h.metadataName := by simpa using List.find?_some hfirst'
    have hmem := List.mem_of_find?_eq_some hfirst'
    cases hc : m.coreLibrary with
    | false =>
      rw [hc] at hcore
      cases hcore
    | true =>
      rw [hc] at hcore hmem
      exact (coreTypes_kind h hcore first' hmem hname).symm
  · obtain ⟨e, he, rfl⟩ := List.mem_map.mp hentry
    by_contra hne
    exact hagree ⟨e, he, first, hfirst, hne⟩

/-- Declarations of one name in a loaded graph have one kind. -/
theorem kind?_congr (hload : m.load = some (.ok g)) (hty : ty ∈ g.declared)
    (hty' : ty' ∈ g.declared) (hname : g.metadataName? ty = g.metadataName? ty') :
    g.kind? ty = g.kind? ty' := by
  have hdeclares := load_declares hload
  have hagree := not_conflicting_of_load hload
  obtain ⟨h, hh, hf⟩ := exists_of_mem_left hdeclares.forms hty
  obtain ⟨h', hh', hf'⟩ := exists_of_mem_left hdeclares.forms hty'
  rw [metadataName?_of_declared hf, metadataName?_of_declared hf', Option.some.injEq] at hname
  obtain ⟨first, hfirst⟩ := first?_isSome_of_mem hh
  have hkind := kind_of_first? hagree hh hfirst
  have hkind' := kind_of_first? hagree hh' (hname ▸ hfirst)
  rw [kind?, kind?, head?_of_declared hf, head?_of_declared hf', Option.map_some, Option.map_some,
    hkind, hkind']

end Manifest

/-! ## Methods of fragments -/

theorem TypeGraph.flattened?_own (hg : Consistent g) {own : List TypeId} {root : String}
    (hne : own ≠ []) (hnodup : own.Nodup) (hown : ∀ f ∈ own, f ∈ g.declaredAs root) :
    ∃ ids, g.flattened? own = some ids ∧ g.methodsOf own <+: ids := by
  have hmethods : (g.methodsOf own).Nodup :=
    nodup_methodsOf hg hnodup fun f hf => (mem_declaredAs.mp (hown f hf)).1
  obtain ⟨v, hv, hflattened⟩ := exists_visit hg hne hown
  obtain ⟨_, hfirst, _, _⟩ := (enter_walks hv).grows
  rw [collect_first hmethods] at hfirst
  exact ⟨v.methods, hflattened, hfirst⟩

/-- A method belongs to one declaration. -/
theorem TypeGraph.declaration_of_method (hg : Consistent g) {f f' : TypeId} (hf : f ∈ g.declared)
    (hf' : f' ∈ g.declared) {ms ms' : List MethodId} (hms : g.methods? f = some ms)
    (hms' : g.methods? f' = some ms') {id : MethodId} (hid : id ∈ ms) (hid' : id ∈ ms') :
    f = f' := by
  obtain ⟨h, hform⟩ := hg.declared.mp hf
  obtain ⟨h', hform'⟩ := hg.declared.mp hf'
  obtain ⟨s, hs, e⟩ := methods?_of_declared hform
  obtain ⟨s', hs', e'⟩ := methods?_of_declared hform'
  cases hms.symm.trans e
  cases hms'.symm.trans e'
  exact hg.apart hs hs' (List.mem_filter.mp hid).1 (List.mem_filter.mp hid').1

/-- The methods of a declaration that is not among the fragments are not found: the name of the
interface is never entered again. -/
theorem TypeGraph.flattened?_only (hg : g.Tidy) {own : List TypeId} {root : String}
    {ids : List MethodId} (hne : own ≠ []) (hown : ∀ f ∈ own, f ∈ g.declaredAs root)
    (hids : g.flattened? own = some ids) {f : TypeId} (hf : f ∈ g.declaredAs root)
    (hnot : f ∉ own) {ms : List MethodId} (hms : g.methods? f = some ms) :
    ∀ id ∈ ids, id ∉ ms := by
  have hconsistent := hg.consistent
  obtain ⟨v, hv, hflattened⟩ := exists_visit hconsistent hne hown
  cases hids.symm.trans hflattened
  have hcollected : Collected g own root v := by
    refine (enter_walks hv).sound hconsistent hg.bare.membersDeclared hg.bases
      (fun _ => hg.bases.of_basesOf) (fun _ hb _ => Contributes.own.inherits hb)
      (Collected.collect ?_ .own)
    exact ⟨List.mem_singleton_self _, by simp, by simp, .nil⟩
  obtain ⟨hmem, hname⟩ := mem_declaredAs.mp hf
  have hother : ∀ {f' ms'}, f' ∈ g.declared → g.methods? f' = some ms' → ∀ id ∈ ms', id ∈ ms →
      f' = f :=
    fun hmem' hms' _ hid' hid => declaration_of_method hconsistent hmem' hmem hms' hms hid' hid
  intro id hid hid₀
  obtain ⟨group, hgroup, hidgroup⟩ := hcollected.sources id hid
  obtain ⟨f', hf', ms', hms', hid'⟩ := mem_methodsOf.mp hidgroup
  cases hgroup with
  | own =>
    obtain rfl := hother (mem_declaredAs.mp (hown f' hf')).1 hms' id hid' hid₀
    exact hnot hf'
  | inherited hn =>
    obtain ⟨hmem', hname'⟩ := mem_declaredAs.mp hf'
    obtain rfl := hother hmem' hms' id hid' hid₀
    exact hn.ne_root (Option.some.inj (hname'.symm.trans hname))

namespace Contract

variable {w : WellKnown} {scope : Scope} {style : NamingStyle} {role : Role} {c : Contract}
  {ds ds' : List Diagnostic}

/-- A collision is reported for the declared name of a method of an interface. -/
def ReportsCollision (subject : String) (ds : List Diagnostic) (name : String) : Prop :=
  ∃ d ∈ ds, d.kind = .nameCollision ∧ d.subject = subject ∧ d.method = some name

/-- A method is kept, or a collision is reported for it. -/
theorem rejectCollisions_accounts (subject : String) (table : List (String × String))
    {ms : List ContractMethod} {m : ContractMethod} (hm : m ∈ ms) :
    m ∈ (rejectCollisions subject table ms).1 ∨
      ReportsCollision subject (rejectCollisions subject table ms).2 m.wireName := by
  induction ms generalizing table with
  | nil => cases hm
  | cons m' ms ih =>
    rw [rejectCollisions]
    cases table.lookup m'.localName with
    | some first =>
      rcases List.mem_cons.mp hm with rfl | hm
      · exact .inr ⟨_, List.mem_cons_self, rfl, rfl, rfl⟩
      · rcases ih table hm with hkept | ⟨d, hd, hreport⟩
        · exact .inl hkept
        · exact .inr ⟨d, List.mem_cons_of_mem _ hd, hreport⟩
    | none =>
      rcases List.mem_cons.mp hm with rfl | hm
      · exact .inl List.mem_cons_self
      · rcases ih _ hm with hkept | hreport
        · exact .inl (List.mem_cons_of_mem _ hkept)
        · exact .inr hreport

/-- Every ordinary method of a fragment is a method of the contract, or a collision is reported for
it. -/
def Covers (g : TypeGraph) (c : Contract) (ds : List Diagnostic) (f : TypeId) : Prop :=
  ∀ ids, g.methods? f = some ids → ∀ id ∈ ids, (∃ m ∈ c.methods, m.id = id) ∨
    ∃ x, g.method? id = some x ∧ ReportsCollision c.qualifiedName ds x.name

theorem Covers.mono {f : TypeId} (h : Covers g c ds f) (hds : ∀ d ∈ ds, d ∈ ds') :
    Covers g c ds' f := by
  intro ids hids id hid
  rcases h ids hids id hid with hkept | ⟨x, hx, d, hd, hreport⟩
  · exact .inl hkept
  · exact .inr ⟨x, hx, d, hds d hd, hreport⟩

/-- No method of the contract is one of the declaration. -/
def LeavesOut (g : TypeGraph) (c : Contract) (f : TypeId) : Prop :=
  ∀ ids, g.methods? f = some ids → ∀ m ∈ c.methods, m.id ∉ ids

/-- The fragments of a contract are all declarations under its name, in their order, and no ordinary
method of them is lost without a report. -/
structure Merges (g : TypeGraph) (c : Contract) (ds : List Diagnostic) : Prop where
  fragments : c.fragments = g.declaredAs c.qualifiedName
  methods : ∀ f ∈ g.declaredAs c.qualifiedName, Covers g c ds f

/-! ## Groups of loaded graphs -/

/-- The declarations of a name that are in scope, in their order. -/
def inScope (g : TypeGraph) (scope : Scope) (name : String) : List TypeId :=
  (g.declaredIn scope).filter fun ty => g.metadataName? ty == some name

/-- In a loaded graph, a group holds all declarations of its name that are in scope. -/
theorem candidates_of_load {m : Manifest} (hload : m.load = some (.ok g))
    {group : String × List TypeId} (hgroup : group ∈ candidates g w scope role) :
    group.2 = inScope g scope group.1 := by
  have hcoherent := (Manifest.load_reachable hload).coherent
  have hgrouped := groupByName_grouped g (marked g w scope role)
  obtain ⟨ty₀, h₀⟩ := List.exists_mem_of_ne_nil _ (hgrouped.nonempty group hgroup)
  obtain ⟨hmarked, hname⟩ := (mem_candidate hgroup).mp h₀
  have hkind : g.kind? ty₀ = some .interface := by simpa using (List.mem_filter.mp hmarked).2
  rw [candidates_eq hcoherent hgroup, inScope]
  refine List.filter_congr fun ty hty => ?_
  by_cases hsame : g.metadataName? ty = some group.1
  · have hinterface : g.kind? ty = some .interface := by
      rw [← hkind]
      exact Manifest.kind?_congr hload (mem_declared_of_mem_declaredIn hty)
        (mem_declared_of_marked hmarked) (hsame.trans hname.symm)
    simp [hsame, hinterface]
  · simp [hsame]

private theorem inScope_eq_declaredAs {name : String} :
    inScope g scope name = g.declaredAs name ↔
      ∀ f ∈ g.declaredAs name, f ∈ g.declaredIn scope := by
  constructor
  · intro h f hf
    rw [← h] at hf
    exact (List.mem_filter.mp hf).1
  · intro h
    cases scope with
    | sourceAndReferenced => rfl
    | source =>
      rw [inScope, declaredIn, List.filter_filter, declaredAs]
      refine List.filter_congr fun ty hty => ?_
      by_cases hname : g.metadataName? ty = some name
      · have hsource := (List.mem_filter.mp (h ty (mem_declaredAs.mpr ⟨hty, hname⟩))).2
        simp [hname, hsource]
      · simp [hname]

private theorem candidates_declaredAs {group : String × List TypeId}
    (hgroup : group ∈ candidates g w scope role) : ∀ f ∈ group.2, f ∈ g.declaredAs group.1 := by
  intro f hf
  obtain ⟨hmarked, hname⟩ := (mem_candidate hgroup).mp hf
  exact mem_declaredAs.mpr ⟨mem_declared_of_marked hmarked, hname⟩

/-- A contract of a group has the fragments of the group and covers them. -/
theorem ofFragments?_covers (hg : g.Reachable) {group : String × List TypeId}
    (hgroup : group ∈ candidates g w scope role)
    (h : ofFragments? g w style role group.2 = some (some c, ds)) :
    c.fragments = group.2 ∧ ∀ f ∈ group.2, Covers g c ds f := by
  have hgrouped := groupByName_grouped g (marked g w scope role)
  have hnodup : group.2.Nodup := by
    rw [candidates_eq hg.coherent hgroup]
    exact (nodup_declaredIn hg.consistent.toListed scope).filter _
  obtain ⟨ids', hids', hall⟩ := flattened?_own hg.consistent (hgrouped.nonempty group hgroup)
    hnodup (candidates_declaredAs hgroup)
  obtain ⟨_, qualifiedName, _, _, hcases⟩ := ofFragments?_cases h
  rcases hcases with ⟨_, e, _⟩ | ⟨_, ids, all, _, _, hids, hdescribed, _, _, e, rfl⟩
  · cases e
  · cases e
    cases hids.symm.trans hids'
    refine ⟨rfl, fun f hf ms hms id hid => ?_⟩
    have hmem : id ∈ g.methodsOf group.2 := by
      rw [methodsOf, List.mem_flatMap]
      exact ⟨f, hf, by rw [hms]; exact hid⟩
    obtain ⟨m, hm, hdescribe⟩ := exists_of_mem_left hdescribed (hall.subset hmem)
    obtain ⟨x, _, hx, _, rfl⟩ := describe?_eq_some hdescribe
    rcases rejectCollisions_accounts qualifiedName [] hm with hkept | hreport
    · exact .inl ⟨_, hkept, rfl⟩
    · exact .inr ⟨x, hx, hreport⟩

/-- A contract of a group leaves out the declarations of its name that are not in the group. -/
theorem ofFragments?_leavesOut (hg : g.Tidy) {group : String × List TypeId}
    (hgroup : group ∈ candidates g w scope role)
    (h : ofFragments? g w style role group.2 = some (some c, ds)) {f : TypeId}
    (hf : f ∈ g.declaredAs group.1) (hnot : f ∉ group.2) : LeavesOut g c f := by
  obtain ⟨_, ids, hids, hsub, _⟩ := ofFragments?_methods h
  have hne := (groupByName_grouped g (marked g w scope role)).nonempty group hgroup
  intro ms hms m hm
  refine flattened?_only hg hne (candidates_declaredAs hgroup) hids hf hnot hms m.id ?_
  exact hsub.subset (List.mem_map_of_mem hm)

/-- The contracts of a role have the declarations in scope as their fragments. They cover these and
leave out the others. -/
theorem discoverRole?_covers {m : Manifest} (hload : m.load = some (.ok g)) {cs : List Contract}
    (h : discoverRole? g w scope style role = some (cs, ds)) (hc : c ∈ cs) :
    c.fragments = inScope g scope c.qualifiedName ∧ (∀ f ∈ c.fragments, Covers g c ds f) ∧
      ∀ f ∈ g.declaredAs c.qualifiedName, f ∉ c.fragments → LeavesOut g c f := by
  have hg := Manifest.load_reachable hload
  obtain ⟨found, hfound, rfl, rfl⟩ := discoverRole?_eq_some h
  obtain ⟨⟨o, reports⟩, hmem, ho⟩ := List.mem_filterMap.mp hc
  cases ho
  obtain ⟨group, hgroup, hf⟩ := exists_of_mem_right hfound hmem
  obtain ⟨hfragments, hcovers⟩ := ofFragments?_covers hg hgroup hf
  obtain ⟨_, _, _, _, hname⟩ := ofFragments?_head hg.coherent hgroup hf
  refine ⟨?_, fun f hf => ?_, fun f hdeclared hnot => ?_⟩
  · rw [hfragments, hname, candidates_of_load hload hgroup]
  · rw [hfragments] at hf
    exact (hcovers f hf).mono fun d hd => List.mem_flatMap.mpr ⟨_, hmem, hd⟩
  · rw [hname] at hdeclared
    rw [hfragments] at hnot
    exact ofFragments?_leavesOut (Manifest.load_tidy hload) hgroup hf hdeclared hnot

/-- Discovery in a loaded graph merges the declarations in scope: they are the fragments of the
contract, none of their methods is lost, and those of other declarations are left out. All
declarations under the name are merged exactly if all of them are in scope. -/
theorem fragments_merge_iff {m : Manifest} (hload : m.load = some (.ok g)) (w : WellKnown)
    (scope : Scope) (style : NamingStyle) :
    ∃ found, Discovery.run? g w scope style = some found ∧
      ∀ c ∈ found.hubs ++ found.receivers,
        c.fragments = inScope g scope c.qualifiedName ∧
        (∀ f ∈ c.fragments, Covers g c found.diagnostics f) ∧
        (∀ f ∈ g.declaredAs c.qualifiedName, f ∉ c.fragments → LeavesOut g c f) ∧
        (Merges g c found.diagnostics ↔
          ∀ f ∈ g.declaredAs c.qualifiedName, f ∈ g.declaredIn scope) := by
  have hconsistent := (Manifest.load_reachable hload).consistent
  obtain ⟨⟨hubs, hubReports⟩, hh, _⟩ := discoverRole?_answers hconsistent w scope style .hub
  obtain ⟨⟨receivers, receiverReports⟩, hr, _⟩ :=
    discoverRole?_answers hconsistent w scope style .receiver
  have hrun : Discovery.run? g w scope style =
      some { hubs, receivers, diagnostics := hubReports ++ receiverReports } := by
    simp [Discovery.run?, hh, hr]
  refine ⟨_, hrun, fun c hc => ?_⟩
  have hcovered : c.fragments = inScope g scope c.qualifiedName ∧
      (∀ f ∈ c.fragments, Covers g c (hubReports ++ receiverReports) f) ∧
      ∀ f ∈ g.declaredAs c.qualifiedName, f ∉ c.fragments → LeavesOut g c f := by
    rcases List.mem_append.mp hc with hc | hc
    · obtain ⟨hfragments, hcovers, hothers⟩ := discoverRole?_covers hload hh hc
      exact ⟨hfragments, fun f hf => (hcovers f hf).mono fun _ => List.mem_append_left _, hothers⟩
    · obtain ⟨hfragments, hcovers, hothers⟩ := discoverRole?_covers hload hr hc
      exact ⟨hfragments, fun f hf => (hcovers f hf).mono fun _ => List.mem_append_right _, hothers⟩
  obtain ⟨hfragments, hcovers, hothers⟩ := hcovered
  refine ⟨hfragments, hcovers, hothers, fun h => ?_, fun hall => ?_⟩
  · rw [← inScope_eq_declaredAs, ← hfragments]
    exact h.fragments
  · have hsame := hfragments.trans (inScope_eq_declaredAs.mpr hall)
    exact ⟨hsame, fun f hf => hcovers f (hsame ▸ hf)⟩

/-- A hub in two fragments, of which the second comes from somewhere. -/
def boardManifest (origin : Origin) : Manifest :=
  { coreLibrary := false
    types :=
      [{ kind := .classType, nameSpace := "TypedSignalR.Client", name := "HubAttribute" },
       { kind := .classType, nameSpace := "TypedSignalR.Client", name := "ReceiverAttribute" },
       { kind := .classType, nameSpace := "Tapper", name := "TranspilationSourceAttribute" },
       { kind := .classType, nameSpace := "System.Threading.Tasks", name := "Task" },
       { kind := .interface, nameSpace := "App", name := "IBoard"
         attributes := ["TypedSignalR.Client.HubAttribute"]
         methods := [{ name := "Join", returns := .named "System.Threading.Tasks.Task" }] },
       { kind := .interface, nameSpace := "App", name := "IBoard", origin
         methods := [{ name := "Leave", returns := .named "System.Threading.Tasks.Task" }] }] }

def boardTypes (origin : Origin) : TypeGraph :=
  ((boardManifest origin).load.bind Except.toOption).getD {}

private theorem boardTypes_loaded (origin : Origin) :
    (boardManifest origin).load = some (.ok (boardTypes origin)) := by
  cases origin <;> exact Manifest.load_of_isSome (by decide +kernel)

def boardMarkers : WellKnown :=
  { task := some ⟨3⟩, genericTask := none, asyncEnumerable := none, channelReader := none
    cancellationToken := none, hubMarker := ⟨0⟩, receiverMarker := ⟨1⟩, dataTypeMarker := ⟨2⟩ }

/-- What can be seen of a contract. -/
def overview (c : Contract) : String × List TypeId × List String :=
  (c.qualifiedName, c.fragments, c.methods.map (·.wireName))

/-- Two fragments in scope are merged. -/
theorem boardTypes_merged :
    WellKnown.resolve (boardTypes .source) {} = .ok boardMarkers ∧
      ∃ found c, Discovery.run? (boardTypes .source) boardMarkers .source .camelCase = some found ∧
        found.hubs = [c] ∧ overview c = ("App.IBoard", [⟨4⟩, ⟨5⟩], ["Join", "Leave"]) ∧
        Merges (boardTypes .source) c found.diagnostics := by
  obtain ⟨found, hrun, hall⟩ :=
    fragments_merge_iff (boardTypes_loaded .source) boardMarkers .source .camelCase
  have hview : (Discovery.run? (boardTypes .source) boardMarkers .source .camelCase).map
      (fun d => d.hubs.map overview) =
        some [("App.IBoard", [⟨4⟩, ⟨5⟩], ["Join", "Leave"])] := by
    decide +kernel
  rw [hrun, Option.map_some, Option.some.injEq, List.map_eq_singleton_iff] at hview
  obtain ⟨c, hhubs, hc⟩ := hview
  have hname : c.qualifiedName = "App.IBoard" := congrArg Prod.fst hc
  obtain ⟨_, _, _, hiff⟩ := hall c (by simp [hhubs])
  refine ⟨by decide +kernel, found, c, hrun, hhubs, hc, hiff.mpr ?_⟩
  rw [hname]
  decide +kernel

/-- A fragment out of scope is left out without a report, though the interface is marked. -/
theorem boardTypes_not_merged :
    (boardManifest .referenced).load = some (.ok (boardTypes .referenced)) ∧
    WellKnown.resolve (boardTypes .referenced) {} = .ok boardMarkers ∧
      ∃ found c,
        Discovery.run? (boardTypes .referenced) boardMarkers .source .camelCase = some found ∧
        found.hubs = [c] ∧ found.diagnostics = [] ∧
        overview c = ("App.IBoard", [⟨4⟩], ["Join"]) ∧
        (boardTypes .referenced).declaredAs "App.IBoard" = [⟨4⟩, ⟨5⟩] ∧
        ¬ Merges (boardTypes .referenced) c found.diagnostics := by
  have hrun : (Discovery.run? (boardTypes .referenced) boardMarkers .source .camelCase).map
      (fun d => (d.hubs.map overview, d.diagnostics)) =
        some ([("App.IBoard", [⟨4⟩], ["Join"])], []) := by
    decide +kernel
  obtain ⟨found, hfound, hview⟩ := Option.map_eq_some_iff.mp hrun
  obtain ⟨hhubs, hdiagnostics⟩ := Prod.mk.inj hview
  obtain ⟨c, hc, hoverview⟩ := List.map_eq_singleton_iff.mp hhubs
  have hdeclared : (boardTypes .referenced).declaredAs "App.IBoard" = [⟨4⟩, ⟨5⟩] := by
    decide +kernel
  refine ⟨boardTypes_loaded .referenced, by decide +kernel, found, c, hfound, hc, hdiagnostics,
    hoverview, hdeclared, fun h => ?_⟩
  obtain ⟨hname, hrest⟩ := Prod.mk.inj hoverview
  have hfragments := h.fragments
  rw [hname, hdeclared, (Prod.mk.inj hrest).1] at hfragments
  cases hfragments

end Contract

end HubBindings
