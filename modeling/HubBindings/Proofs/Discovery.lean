import HubBindings.Proofs.Contract
import HubBindings.Proofs.TypeGraph.Renaming

/-!
Discovery as a partition of the marked interfaces.

* `Eligible` says which types a role looks for: interfaces in scope, with the marker on some
  declaration of their name, which need not be in scope itself;
* the groups of a role partition the eligible types by metadata name (`candidates_partition`);
* discovery has a result on every graph, whatever the well-known types are
  (`discoverRole?_answers`), and its contracts are the groups without a generic fragment.
-/

namespace HubBindings

open Sequencing TypeGraph

variable {g : TypeGraph} {w : WellKnown} {role : Role} {scope : Scope} {style : NamingStyle}

/-! ## Shapes have an answer -/

namespace Call

section Issued

variable (hg : Consistent g) {ty : TypeId} (hty : g.Issued ty)
include hg hty

private theorem featured?_answers : Answers (featured? g w ty) := by
  have inside : ∀ {a}, g.Issued a → Answers (do return (← g.firstArgument? a).getD a) := fun ha =>
    .bind (firstArgument?_yields hg ha) fun _ _ _ => .some trivial
  refine .bind (isStream?_answers hg hty w) fun b _ _ => ?_
  cases b with
  | true => exact inside hty
  | false =>
    refine .bind (isConstructedFrom?_answers hg hty _) fun b _ _ => ?_
    cases b with
    | false => exact .some trivial
    | true =>
      refine .bind (firstArgument?_yields hg hty) fun o _ ho => ?_
      cases o with
      | none => exact .some trivial
      | some inner =>
        have hinner := hty.of_lt (ho inner rfl)
        refine .bind (isStream?_answers hg hinner w) fun b _ _ => ?_
        cases b with
        | true => exact inside hinner
        | false => exact .some trivial

private theorem returnsStream?_answers : Answers (returnsStream? g w ty) := by
  have hresult : Yields (fun o => ∀ a ∈ o, g.Issued a) (taskResult? g w ty) := by
    refine .bind (isConstructedFrom?_answers hg hty _) fun b _ _ => ?_
    cases b with
    | true => exact (firstArgument?_yields hg hty).mono fun _ _ ho a ha => hty.of_lt (ho a ha)
    | false => exact .some (by simp)
  refine .bind (isConstructedFrom?_answers hg hty _) fun b _ _ => ?_
  cases b with
  | true => exact .some trivial
  | false =>
    refine .bind hresult fun o _ ho => ?_
    cases o with
    | none => exact .some trivial
    | some inner => exact isStream?_answers hg (ho inner rfl) w

end Issued

private theorem classify?_answers (hg : Consistent g) {x : Method} (hx : g.IssuedMethod x) :
    Answers (classify? g w x) := by
  refine .bind (.findM? fun p hp => isStream?_answers hg (hx.2 p hp) w) fun o _ ho => ?_
  refine .bind (returnsStream?_answers hg hx.1) fun b _ _ => ?_
  cases b with
  | true => exact .bind (featured?_answers hg hx.1) fun _ _ _ => .some trivial
  | false =>
    cases o with
    | some p => exact .bind (featured?_answers hg (hx.2 p (ho p rfl))) fun _ _ _ => .some trivial
    | none =>
      simp only [Bool.false_eq_true, ↓reduceIte]
      split
      · exact .some trivial
      · exact .bind (featured?_answers hg hx.1) fun _ _ _ => .some trivial

end Call

/-! ## Discovery has an answer -/

namespace Contract

private theorem describe?_answers (hg : Consistent g) {m : MethodId} (hm : g.HasMethod m) :
    Answers (describe? g w style m) := by
  obtain ⟨x, hx⟩ := hasMethod_iff.mp hm
  refine .bind (P := g.IssuedMethod) ⟨x, hx, hg.signatures hx⟩ fun y _ hy => ?_
  exact .bind (Call.classify?_answers hg hy) fun _ _ _ => .some trivial

private theorem flattened?_yields (hg : Consistent g) {fragments : List TypeId}
    (hissued : ∀ f ∈ fragments, g.Issued f) :
    Yields (fun ids => ∀ id ∈ ids, g.HasMethod id) (g.flattened? fragments) := by
  have hsame : List.Forall₂ (g.Renamed id) fragments fragments :=
    List.forall₂_same.mpr fun f hf => ⟨hissued f hf, rfl⟩
  obtain ⟨ids, _, hids, _, hall⟩ := (Translation.refl hg).embedding.flattened? hsame
  refine ⟨ids, hids, fun id hid => ?_⟩
  obtain ⟨_, _, hmethod, _⟩ := exists_of_mem_left hall hid
  exact hmethod

private theorem ofFragments?_answers (hg : Consistent g) {fragments : List TypeId}
    (hne : fragments ≠ []) (hissued : ∀ f ∈ fragments, g.Issued f) :
    Answers (ofFragments? g w style role fragments) := by
  obtain ⟨first, rest, rfl⟩ := List.exists_cons_of_ne_nil hne
  have hfirst := hissued first List.mem_cons_self
  obtain ⟨q, _, hq, _⟩ := (Translation.refl hg).embedding.qualifiedName? ⟨hfirst, rfl⟩
  refine .bind (P := fun f => g.Issued f) ⟨first, rfl, hfirst⟩ fun f hf _ => ?_
  cases hf
  refine .bind (P := fun _ => True) ⟨q, hq, trivial⟩ fun _ _ _ => ?_
  split
  · exact .some trivial
  · refine .bind (flattened?_yields hg hissued) fun ids _ hids => ?_
    refine .bind (Yields.mapM fun id hid => describe?_answers hg (hids id hid)) fun _ _ _ => ?_
    refine .bind (name?_answers hg hfirst) fun _ _ _ => ?_
    exact .bind (nameSpace?_answers hg hfirst) fun _ _ _ => .some trivial

theorem discoverRole?_answers (hg : Consistent g) (w : WellKnown) (scope : Scope)
    (style : NamingStyle) (role : Role) : Answers (discoverRole? g w scope style role) := by
  have hgrouped := groupByName_grouped g (marked g w scope role)
  refine .bind (Yields.mapM (Q := fun _ => True) fun group hgroup => ?_) fun _ _ _ => .some trivial
  refine ofFragments?_answers hg (hgrouped.nonempty group hgroup) fun ty hty => ?_
  exact hg.toListed.issued (mem_declared_of_marked ((mem_candidate hgroup).mp hty).1)

/-! ## The partition -/

/-- An interface in scope with the marker of a role on some declaration of its name. -/
structure Eligible (g : TypeGraph) (w : WellKnown) (scope : Scope) (role : Role) (ty : TypeId) :
    Prop where
  inScope : ty ∈ g.declaredIn scope
  isInterface : g.kind? ty = some .interface
  marked : ∃ f ∈ g.declared, g.metadataName? f = g.metadataName? ty ∧
    ∃ as, g.attributes? f = some as ∧ markerOf w role ∈ as

/-- Groups of the types with a property: each is in exactly one group, by its metadata name, and
both the groups and the types in them are in the order of a list. -/
structure Partition (g : TypeGraph) (order : List TypeId) (P : TypeId → Prop)
    (groups : List (List TypeId)) : Prop where
  exactlyOne : ∀ ty, P ty → groups.countP (fun group => ty ∈ group) = 1
  only : ∀ group ∈ groups, ∀ ty ∈ group, P ty
  together : ∀ ty ty', P ty → P ty' →
    ((∃ group ∈ groups, ty ∈ group ∧ ty' ∈ group) ↔ g.metadataName? ty = g.metadataName? ty')
  nonempty : ∀ group ∈ groups, group ≠ []
  distinct : order.Nodup
  fragments : ∀ group ∈ groups, group.Sublist order
  firsts : (groups.filterMap List.head?).Sublist order

private theorem mem_marked_iff (hg : g.Coherent) {ty : TypeId} :
    ty ∈ marked g w scope role ↔ Eligible g w scope role ty := by
  have hattribute : ∀ {h}, ty ∈ g.declaredIn scope → g.form? ty = some (.declared h) →
      (g.hasAttribute? ty (markerOf w role) = some true ↔
        ∃ f ∈ g.declared, g.metadataName? f = g.metadataName? ty ∧
          ∃ as, g.attributes? f = some as ∧ markerOf w role ∈ as) := by
    intro h hty hf
    rw [hasAttribute?, fragments?_of_declared hf (mem_declared_of_mem_declaredIn hty),
      Option.map_some, Option.some.injEq, List.any_eq_true, metadataName?_of_declared hf]
    simp only [declaredAs, List.mem_filter, beq_iff_eq, Option.any_eq_true, List.contains_iff_mem,
      and_assoc]
  rw [Contract.marked, annotated, List.mem_filter, List.mem_filter, beq_iff_eq, beq_iff_eq]
  constructor
  · rintro ⟨⟨hty, hmarked⟩, hkind⟩
    obtain ⟨h, hf⟩ := hg.declared ty (mem_declared_of_mem_declaredIn hty)
    exact ⟨hty, hkind, (hattribute hty hf).mp hmarked⟩
  · rintro ⟨hty, hkind, hmarked⟩
    obtain ⟨h, hf⟩ := hg.declared ty (mem_declared_of_mem_declaredIn hty)
    exact ⟨⟨hty, (hattribute hty hf).mpr hmarked⟩, hkind⟩

/-- A group holds the eligible types of its name. -/
theorem mem_candidate_iff (hg : g.Coherent) {group : String × List TypeId}
    (hgroup : group ∈ candidates g w scope role) {ty : TypeId} :
    ty ∈ group.2 ↔ Eligible g w scope role ty ∧ g.metadataName? ty = some group.1 := by
  rw [mem_candidate hgroup, mem_marked_iff hg]

private theorem exists_candidate (hg : g.Coherent) {ty : TypeId} (h : Eligible g w scope role ty) :
    ∃ group ∈ candidates g w scope role, g.metadataName? ty = some group.1 := by
  obtain ⟨group, hgroup, hty⟩ := candidates_cover hg ((mem_marked_iff hg).mpr h)
  exact ⟨group, hgroup, ((mem_candidate hgroup).mp hty).2⟩

theorem nodup_declaredIn (hg : g.Listed) (scope : Scope) : (g.declaredIn scope).Nodup := by
  have hall : g.declared.Nodup := by
    refine hg.ascending.imp fun {a b} hlt heq => ?_
    rw [heq] at hlt
    exact Nat.lt_irrefl _ hlt
  cases scope with
  | source => exact hall.filter _
  | sourceAndReferenced => exact hall

/-- The groups of a role partition the eligible types. -/
theorem candidates_partition (hg : g.Reachable) (w : WellKnown) (scope : Scope) (role : Role) :
    Partition g (g.declaredIn scope) (Eligible g w scope role)
      ((candidates g w scope role).map (·.2)) := by
  have hgrouped := groupByName_grouped g (Contract.marked g w scope role)
  have hmarked : (Contract.marked g w scope role).Sublist (g.declaredIn scope) :=
    List.filter_sublist.trans List.filter_sublist
  have hmem : ∀ {group ty}, group ∈ candidates g w scope role →
      (ty ∈ group.2 ↔ Eligible g w scope role ty ∧ g.metadataName? ty = some group.1) :=
    fun hgroup => mem_candidate_iff hg.coherent hgroup
  refine ⟨?_, ?_, ?_, ?_, nodup_declaredIn hg.consistent.toListed scope, ?_, ?_⟩
  · intro ty hty
    obtain ⟨group, hgroup, hname⟩ := exists_candidate hg.coherent hty
    -- a type is in the groups with its name, and no two groups have the same name
    have hone : ((candidates g w scope role).map (·.1)).count group.1 = 1 :=
      List.count_eq_one_of_mem hgrouped.names (List.mem_map_of_mem hgroup)
    rw [List.count_eq_countP, List.countP_map] at hone
    rw [List.countP_map, ← hone]
    refine List.countP_congr fun other hother => ?_
    simp only [Function.comp_apply, decide_eq_true_iff, beq_iff_eq, hmem hother, hname,
      Option.some.injEq]
    constructor
    · rintro ⟨_, h⟩
      exact h.symm
    · intro h
      exact ⟨hty, h.symm⟩
  · intro fragments hfragments ty hty
    obtain ⟨group, hgroup, rfl⟩ := List.mem_map.mp hfragments
    exact ((hmem hgroup).mp hty).1
  · intro ty ty' hty hty'
    constructor
    · rintro ⟨fragments, hfragments, h, h'⟩
      obtain ⟨group, hgroup, rfl⟩ := List.mem_map.mp hfragments
      exact ((hmem hgroup).mp h).2.trans ((hmem hgroup).mp h').2.symm
    · intro hsame
      obtain ⟨group, hgroup, hname⟩ := exists_candidate hg.coherent hty
      refine ⟨group.2, List.mem_map_of_mem hgroup, (hmem hgroup).mpr ⟨hty, hname⟩, ?_⟩
      exact (hmem hgroup).mpr ⟨hty', hsame.symm.trans hname⟩
  · intro fragments hfragments
    obtain ⟨group, hgroup, rfl⟩ := List.mem_map.mp hfragments
    exact hgrouped.nonempty group hgroup
  · intro fragments hfragments
    obtain ⟨group, hgroup, rfl⟩ := List.mem_map.mp hfragments
    rw [hgrouped.members group hgroup]
    exact List.filter_sublist.trans hmarked
  · rw [List.filterMap_map]
    exact hgrouped.order.trans hmarked

/-! ## Contracts of groups -/

/-- No fragment of a group is generic. -/
def isPlain (g : TypeGraph) (fragments : List TypeId) : Bool :=
  fragments.all fun f => g.isGeneric? f != some true

/-- The contracts are those of the groups without a generic fragment. -/
theorem fragments_of_found {groups : List (String × List TypeId)}
    {found : List (Option Contract × List Diagnostic)}
    (h : List.Forall₂ (fun entry f => ofFragments? g w style role entry.2 = some f) groups found) :
    (found.filterMap (·.1)).map (·.fragments) = (groups.map (·.2)).filter (isPlain g) := by
  induction h with
  | nil => rfl
  | @cons group f groups found hf _ ih =>
    obtain ⟨o, ds⟩ := f
    obtain ⟨_, _, _, _, hcases⟩ := ofFragments?_cases hf
    rcases hcases with ⟨⟨x, hx, hgeneric⟩, rfl, _⟩ | ⟨hplain, _, _, _, _, _, _, _, _, rfl, _⟩
    · have hnot : isPlain g group.2 = false := by
        rw [isPlain, List.all_eq_false]
        exact ⟨x, hx, by simp [hgeneric]⟩
      simp [hnot, ih]
    · have hall : isPlain g group.2 = true := by
        rw [isPlain, List.all_eq_true]
        intro x hx
        simpa using hplain x hx
      simp [hall, ih]

/-- Contracts have the names of their groups. -/
theorem qualifiedNames_sublist (hg : g.Coherent) {groups : List (String × List TypeId)}
    (hgroups : ∀ group ∈ groups, group ∈ candidates g w scope role)
    {found : List (Option Contract × List Diagnostic)}
    (h : List.Forall₂ (fun entry f => ofFragments? g w style role entry.2 = some f) groups found) :
    ((found.filterMap (·.1)).map (·.qualifiedName)).Sublist (groups.map (·.1)) := by
  induction h with
  | nil => exact .slnil
  | @cons group f groups found hf _ ih =>
    have hrest := ih fun e he => hgroups e (List.mem_cons_of_mem _ he)
    obtain ⟨o, ds⟩ := f
    cases o with
    | none => exact hrest.cons _
    | some c =>
      obtain ⟨_, _, _, _, hkey⟩ := ofFragments?_head hg (hgroups group List.mem_cons_self) hf
      simp only [List.filterMap_cons, List.map_cons, hkey]
      exact hrest.cons_cons _

/-- Methods with different generated names have different declared names. -/
theorem wireNames_nodup {ms : List ContractMethod}
    (hdescribed : ∀ m ∈ ms, describe? g w style m.id = some m)
    (hlocal : (ms.map (·.localName)).Nodup) : (ms.map (·.wireName)).Nodup := by
  have hstyle : ms.map (·.localName) = (ms.map (·.wireName)).map style.apply := by
    rw [List.map_map]
    refine List.map_congr_left fun m hm => ?_
    obtain ⟨decl, _, _, _, heq⟩ := describe?_eq_some (hdescribed m hm)
    rw [heq]
    rfl
  rw [hstyle] at hlocal
  exact hlocal.of_map _

/-- What discovery of a role finds: the groups partition the eligible types, and the contracts are
the groups without a generic fragment, under different names and with methods of different names. -/
structure Discovered (g : TypeGraph) (w : WellKnown) (scope : Scope) (role : Role)
    (cs : List Contract) : Prop where
  partition : Partition g (g.declaredIn scope) (Eligible g w scope role)
    ((candidates g w scope role).map (·.2))
  contracts : cs.map (·.fragments) = ((candidates g w scope role).map (·.2)).filter (isPlain g)
  qualifiedNames : (cs.map (·.qualifiedName)).Nodup
  localNames : ∀ c ∈ cs, (c.methods.map (·.localName)).Nodup
  wireNames : ∀ c ∈ cs, (c.methods.map (·.wireName)).Nodup

/-- Discovery partitions the marked interfaces of a role. -/
theorem discoverRole?_partitions (hg : g.Reachable) (w : WellKnown) (scope : Scope)
    (style : NamingStyle) (role : Role) :
    ∃ cs ds, discoverRole? g w scope style role = some (cs, ds) ∧ Discovered g w scope role cs := by
  obtain ⟨⟨cs, ds⟩, hrun, _⟩ := discoverRole?_answers hg.consistent w scope style role
  obtain ⟨found, hfound, rfl, rfl⟩ := discoverRole?_eq_some hrun
  have hnames := qualifiedNames_sublist hg.coherent (fun _ h => h) hfound
  have hlocal : ∀ c ∈ found.filterMap (·.1), (c.methods.map (·.localName)).Nodup := by
    intro c hc
    obtain ⟨⟨o, reports⟩, hmem, ho⟩ := List.mem_filterMap.mp hc
    cases ho
    obtain ⟨_, _, hf⟩ := exists_of_mem_right hfound hmem
    exact ofFragments?_localNames hf
  refine ⟨_, _, hrun, ?_⟩
  exact
    { partition := candidates_partition hg w scope role
      contracts := fragments_of_found hfound
      qualifiedNames := (groupByName_grouped g _).names.sublist hnames
      localNames := hlocal
      wireNames := fun c hc =>
        wireNames_nodup (discoverRole?_described hrun hc).2 (hlocal c hc) }

/-- A hub in three fragments, of which only one out of scope has the marker, a generic hub, and a
hub with two methods that get one generated name. -/
def scattered : TypeGraph :=
  declareAll
    [{ head := { kind := .classType, nameSpace := "App", name := "HubAttribute" } },
     { head := { kind := .interface, nameSpace := "App", name := "IRoom" }
       methods := [{ name := "Join", returns := ⟨0⟩ }] },
     { head := { kind := .interface, nameSpace := "App", name := "IRoom", origin := .referenced }
       attributes := [⟨0⟩] },
     { head := { kind := .interface, nameSpace := "App", name := "IStore", arity := 1 }
       attributes := [⟨0⟩] },
     { head := { kind := .interface, nameSpace := "App", name := "IChat" }
       attributes := [⟨0⟩]
       methods := [{ name := "Send", returns := ⟨0⟩ }, { name := "send", returns := ⟨0⟩ }] },
     { head := { kind := .interface, nameSpace := "App", name := "IRoom" }
       methods := [{ name := "Leave", returns := ⟨0⟩ }] }] {}

/-- Well-known types without any tasks or streams. -/
def onlyMarkers : WellKnown :=
  { task := none, genericTask := none, asyncEnumerable := none, channelReader := none
    cancellationToken := none, hubMarker := ⟨0⟩, receiverMarker := ⟨0⟩, dataTypeMarker := ⟨0⟩ }

theorem scattered_partitions :
    scattered.Reachable ∧
      (candidates scattered onlyMarkers .source .hub).map (·.2) = [[⟨1⟩, ⟨5⟩], [⟨3⟩], [⟨4⟩]] ∧
      ∃ cs ds, discoverRole? scattered onlyMarkers .source .camelCase .hub = some (cs, ds) ∧
        cs.map (fun c => (c.fragments, c.methods.map (·.wireName))) =
          [([⟨1⟩, ⟨5⟩], ["Join", "Leave"]), ([⟨4⟩], ["Send"])] ∧
        Discovered scattered onlyMarkers .source .hub cs := by
  have hreachable : scattered.Reachable := .declareAll .empty (by decide +kernel)
  obtain ⟨cs, ds, hrun, hdiscovered⟩ :=
    discoverRole?_partitions hreachable onlyMarkers .source .camelCase .hub
  have hcontracts : (discoverRole? scattered onlyMarkers .source .camelCase .hub).map (fun found =>
      found.1.map fun c => (c.fragments, c.methods.map (·.wireName))) =
        some [([⟨1⟩, ⟨5⟩], ["Join", "Leave"]), ([⟨4⟩], ["Send"])] := by
    decide +kernel
  rw [hrun, Option.map_some, Option.some.injEq] at hcontracts
  exact ⟨hreachable, by decide +kernel, cs, ds, hrun, hcontracts, hdiscovered⟩

end Contract

end HubBindings
