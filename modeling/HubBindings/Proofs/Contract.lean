import HubBindings.Contract
import HubBindings.Proofs.Ascending
import HubBindings.Proofs.TypeGraph.Names
import Mathlib.Data.List.Induction

/-!
How contracts come about.

* `groupByName_grouped`: marked interfaces are put together exactly if they share a metadata name;
* `candidates_eq`: such a group holds every interface of its name that is in scope, so it does not
  depend on the role, and `ofFragments?_role` says the same of the methods;
* `ofFragments?_cases`: a group is refused if a fragment is generic, and is a contract with its
  flattened methods otherwise;
* `holder` is the method that has a generated name, and `Taken` says that the table of names in use
  agrees with it.
-/

namespace HubBindings.Contract

open Sequencing

variable {g : TypeGraph} {w : WellKnown} {style : NamingStyle} {role : Role}

/-! ## Groups of fragments -/

/-- Types in groups by metadata name, in the order of the first types of the groups. -/
structure Grouped (g : TypeGraph) (tys : List TypeId) (groups : List (String × List TypeId)) :
    Prop where
  names : (groups.map (·.1)).Nodup
  members : ∀ entry ∈ groups, entry.2 = tys.filter fun ty => g.metadataName? ty = some entry.1
  nonempty : ∀ entry ∈ groups, entry.2 ≠ []
  covers : ∀ ty ∈ tys, ∀ name, g.metadataName? ty = some name → name ∈ groups.map (·.1)
  order : (groups.filterMap (·.2.head?)).Sublist tys

variable {tys : List TypeId} {groups : List (String × List TypeId)} {ty : TypeId}

/-- The groups with a type added to the group of a name. -/
def extendGroup (groups : List (String × List TypeId)) (name : String) (ty : TypeId) :
    List (String × List TypeId) :=
  groups.map fun e => if e.1 == name then (e.1, e.2 ++ [ty]) else e

private theorem addToGroup_of_mem {name : String} (h : name ∈ groups.map (·.1)) :
    addToGroup groups name ty = extendGroup groups name ty := by
  obtain ⟨entry, he, rfl⟩ := List.mem_map.mp h
  have hany : groups.any (fun e => e.1 == entry.1) = true :=
    List.any_eq_true.mpr ⟨entry, he, beq_self_eq_true _⟩
  rw [addToGroup, if_pos hany, extendGroup]

theorem addToGroup_of_not_mem {name : String} (h : name ∉ groups.map (·.1)) :
    addToGroup groups name ty = groups ++ [(name, [ty])] := by
  have hany : ¬ groups.any (fun e => e.1 == name) = true := by
    intro hany
    obtain ⟨entry, he, e⟩ := List.any_eq_true.mp hany
    exact h (List.mem_map.mpr ⟨entry, he, beq_iff_eq.mp e⟩)
  rw [addToGroup, if_neg hany]

private theorem extendGroup_names (groups : List (String × List TypeId)) (name : String)
    (ty : TypeId) :
    (extendGroup groups name ty).map (·.1) = groups.map (·.1) := by
  rw [extendGroup, List.map_map]
  refine List.map_congr_left fun e _ => ?_
  simp only [Function.comp_apply]
  split <;> rfl

/-- A group that has a first type keeps it. -/
theorem extendGroup_heads (h : ∀ e ∈ groups, e.2 ≠ []) (name : String) (ty : TypeId) :
    (extendGroup groups name ty).filterMap (·.2.head?) = groups.filterMap (·.2.head?) := by
  rw [extendGroup, List.filterMap_map]
  refine List.filterMap_congr fun e he => ?_
  obtain ⟨x, xs, hx⟩ := List.exists_cons_of_ne_nil (h e he)
  simp only [Function.comp_apply]
  split <;> simp [hx]

theorem Grouped.skip (h : Grouped g tys groups) (hname : g.metadataName? ty = none) :
    Grouped g (tys ++ [ty]) groups where
  names := h.names
  members entry he := by simp [h.members entry he, hname]
  nonempty := h.nonempty
  covers x hx name hn := by
    rcases List.mem_append.mp hx with hx | hx
    · exact h.covers x hx name hn
    · cases List.mem_singleton.mp hx
      rw [hname] at hn
      cases hn
  order := h.order.trans (List.sublist_append_left _ _)

theorem Grouped.extend (h : Grouped g tys groups) {name : String}
    (hname : g.metadataName? ty = some name) (hmem : name ∈ groups.map (·.1)) :
    Grouped g (tys ++ [ty]) (extendGroup groups name ty) where
  names := by rw [extendGroup_names]; exact h.names
  members entry he := by
    obtain ⟨e, hmem', rfl⟩ := List.mem_map.mp he
    have hm := h.members e hmem'
    by_cases hk : e.1 = name
    · subst hk
      simp [hname, ← hm]
    · have hk' : ¬ name = e.1 := fun heq => hk heq.symm
      simp [hname, hk, hk', ← hm]
  nonempty entry he := by
    obtain ⟨e, hmem', rfl⟩ := List.mem_map.mp he
    split
    · simp
    · exact h.nonempty e hmem'
  covers x hx n hn := by
    rw [extendGroup_names]
    rcases List.mem_append.mp hx with hx | hx
    · exact h.covers x hx n hn
    · cases List.mem_singleton.mp hx
      rw [hname] at hn
      cases hn
      exact hmem
  order := by
    rw [extendGroup_heads h.nonempty]
    exact h.order.trans (List.sublist_append_left _ _)

theorem Grouped.start (h : Grouped g tys groups) {name : String}
    (hname : g.metadataName? ty = some name) (hmem : name ∉ groups.map (·.1)) :
    Grouped g (tys ++ [ty]) (groups ++ [(name, [ty])]) where
  names := by
    rw [List.map_append, List.nodup_append]
    refine ⟨h.names, by simp, ?_⟩
    intro a ha b hb heq
    simp only [List.map_cons, List.map_nil, List.mem_singleton] at hb
    exact hmem (hb ▸ heq ▸ ha)
  members entry he := by
    rcases List.mem_append.mp he with he | he
    · have hk : ¬ name = entry.1 := fun heq => hmem (heq ▸ List.mem_map_of_mem he)
      simp [hname, hk, ← h.members entry he]
    · cases List.mem_singleton.mp he
      -- no earlier type has the name, or there would be a group for it
      have hnone : tys.filter (fun x => g.metadataName? x = some name) = [] :=
        List.filter_eq_nil_iff.mpr fun x hx hn =>
          hmem (h.covers x hx name (of_decide_eq_true hn))
      simp [hname, hnone]
  nonempty entry he := by
    rcases List.mem_append.mp he with he | he
    · exact h.nonempty entry he
    · cases List.mem_singleton.mp he
      simp
  covers x hx n hn := by
    rw [List.map_append]
    rcases List.mem_append.mp hx with hx | hx
    · exact List.mem_append_left _ (h.covers x hx n hn)
    · cases List.mem_singleton.mp hx
      rw [hname] at hn
      cases hn
      simp
  order := by
    rw [List.filterMap_append]
    exact h.order.append (List.Sublist.refl _)

theorem groupByName_grouped (g : TypeGraph) (tys : List TypeId) :
    Grouped g tys (groupByName g tys) := by
  induction tys using List.reverseRecOn with
  | nil => exact ⟨.nil, by simp [groupByName], by simp [groupByName], by simp, .slnil⟩
  | append_singleton tys ty ih =>
    rw [groupByName, List.foldl_append, ← groupByName, List.foldl_cons, List.foldl_nil]
    cases hname : g.metadataName? ty with
    | none => exact ih.skip hname
    | some name =>
      by_cases hmem : name ∈ (groupByName g tys).map (·.1)
      · simpa only [addToGroup_of_mem hmem] using ih.extend hname hmem
      · simpa only [addToGroup_of_not_mem hmem] using ih.start hname hmem

/-! ## Names in use -/

/-- The first of some methods with a generated name. -/
def holder (ms : List ContractMethod) (name : String) : Option ContractMethod :=
  ms.find? fun m => m.localName == name

/-- The table of names in use after some methods: each name with the declared name of its holder. -/
def Taken (ms : List ContractMethod) (table : List (String × String)) : Prop :=
  ∀ name, table.lookup name = (holder ms name).map (·.wireName)

private theorem holder_append_of_some {ms : List ContractMethod} {m first : ContractMethod}
    (h : holder ms m.localName = some first) (name : String) :
    holder (ms ++ [m]) name = holder ms name := by
  rw [holder, List.find?_append, ← holder]
  cases hn : holder ms name with
  | some _ => rfl
  | none =>
    have hne : ¬ m.localName = name := by
      rintro rfl
      rw [hn] at h
      cases h
    simp [hne]

theorem Taken.of_held {ms : List ContractMethod} {table : List (String × String)}
    (ht : Taken ms table) {m first : ContractMethod} (h : holder ms m.localName = some first) :
    Taken (ms ++ [m]) table := by
  intro name
  rw [holder_append_of_some h]
  exact ht name

theorem Taken.of_free {ms : List ContractMethod} {table : List (String × String)}
    (ht : Taken ms table) {m : ContractMethod} (h : holder ms m.localName = none) :
    Taken (ms ++ [m]) ((m.localName, m.wireName) :: table) := by
  intro name
  rw [holder, List.find?_append, ← holder, Ascending.lookup_cons_if]
  by_cases hn : name = m.localName
  · subst hn
    simp [h]
  · have hn' : ¬ m.localName = name := fun e => hn e.symm
    simp [hn, hn', ht name]

private theorem rejectCollisions_sublist (subject : String) (table : List (String × String))
    (ms : List ContractMethod) : (rejectCollisions subject table ms).1.Sublist ms := by
  induction ms generalizing table with
  | nil => exact .slnil
  | cons m ms ih =>
    rw [rejectCollisions]
    cases table.lookup m.localName with
    | some first => exact (ih table).cons m
    | none => exact (ih _).cons_cons m

/-- Names in use are not given again. -/
theorem rejectCollisions_localNames (subject : String) (table : List (String × String))
    (ms : List ContractMethod) :
    ((rejectCollisions subject table ms).1.map (·.localName)).Nodup ∧
      ∀ m ∈ (rejectCollisions subject table ms).1, table.lookup m.localName = none := by
  induction ms generalizing table with
  | nil => simp [rejectCollisions]
  | cons m ms ih =>
    rw [rejectCollisions]
    cases hm : table.lookup m.localName with
    | some first => exact ih table
    | none =>
      obtain ⟨hnodup, hfree⟩ := ih ((m.localName, m.wireName) :: table)
      have hother : ∀ m' ∈ (rejectCollisions subject ((m.localName, m.wireName) :: table) ms).1,
          m'.localName ≠ m.localName ∧ table.lookup m'.localName = none := by
        intro m' hm'
        have h := hfree m' hm'
        rw [Ascending.lookup_cons_if] at h
        split at h
        · cases h
        · rename_i hne
          exact ⟨hne, h⟩
      refine ⟨List.nodup_cons.mpr ⟨?_, hnodup⟩, ?_⟩
      · intro hmem
        obtain ⟨m', hm', e⟩ := List.mem_map.mp hmem
        exact (hother m' hm').1 e
      · intro m' hm'
        rcases List.mem_cons.mp hm' with rfl | hm'
        · exact hm
        · exact (hother m' hm').2

theorem rejectCollisions_subject {subject : String} {table : List (String × String)}
    {ms : List ContractMethod} {d : Diagnostic} (hd : d ∈ (rejectCollisions subject table ms).2) :
    d.subject = subject := by
  induction ms generalizing table with
  | nil => cases hd
  | cons m ms ih =>
    rw [rejectCollisions] at hd
    cases hm : table.lookup m.localName with
    | none =>
      rw [hm] at hd
      exact ih hd
    | some first =>
      rw [hm] at hd
      rcases List.mem_cons.mp hd with rfl | hd
      · rfl
      · exact ih hd

/-! ## Contracts -/

theorem describe?_eq_some {id : MethodId} {m : ContractMethod}
    (h : describe? g w style id = some m) :
    ∃ decl call, g.method? id = some decl ∧ Call.classify? g w decl = some call ∧
      m = { localName := style.apply decl.name, wireName := decl.name, id,
            parameters := decl.parameters, returns := decl.returns, call } := by
  unfold describe? at h
  obtain ⟨decl, hd, h⟩ := Option.bind_eq_some_iff.mp h
  obtain ⟨call, hc, h⟩ := Option.bind_eq_some_iff.mp h
  cases h
  exact ⟨decl, call, hd, hc, rfl⟩

/-- A marked interface is refused if a fragment is generic. Otherwise it is a contract under the
names of its first fragment. -/
theorem ofFragments?_cases {fragments : List TypeId} {o : Option Contract} {ds : List Diagnostic}
    (h : ofFragments? g w style role fragments = some (o, ds)) :
    ∃ first qualifiedName, fragments.head? = some first ∧
      g.qualifiedName? first = some qualifiedName ∧
      ((∃ f ∈ fragments, g.isGeneric? f = some true) ∧ o = none ∧
          ds = [genericMisuse qualifiedName role] ∨
        (∀ f ∈ fragments, g.isGeneric? f ≠ some true) ∧
          ∃ ids all name nameSpace, g.flattened? fragments = some ids ∧
            List.Forall₂ (fun id m => describe? g w style id = some m) ids all ∧
            g.name? first = some name ∧ g.nameSpace? first = some nameSpace ∧
            o = some { name, nameSpace, qualifiedName, role, fragments,
                       methods := (rejectCollisions qualifiedName [] all).1 } ∧
            ds = (rejectCollisions qualifiedName [] all).2) := by
  unfold ofFragments? at h
  obtain ⟨first, hf, h⟩ := Option.bind_eq_some_iff.mp h
  obtain ⟨qualifiedName, hq, h⟩ := Option.bind_eq_some_iff.mp h
  refine ⟨first, qualifiedName, hf, hq, ?_⟩
  split at h
  · rename_i hany
    cases h
    simp only [List.any_eq_true, beq_iff_eq] at hany
    exact .inl ⟨hany, rfl, rfl⟩
  · rename_i hany
    simp only [List.any_eq_true, beq_iff_eq, not_exists, not_and] at hany
    obtain ⟨ids, hids, h⟩ := Option.bind_eq_some_iff.mp h
    obtain ⟨all, hall, h⟩ := Option.bind_eq_some_iff.mp h
    obtain ⟨name, hname, h⟩ := Option.bind_eq_some_iff.mp h
    obtain ⟨nameSpace, hns, h⟩ := Option.bind_eq_some_iff.mp h
    cases h
    exact .inr ⟨hany, ids, all, name, nameSpace, hids, mapM_eq_some_iff.mp hall, hname, hns, rfl,
      rfl⟩

/-- The marked interfaces of a role, grouped. -/
def candidates (g : TypeGraph) (w : WellKnown) (scope : Scope) (role : Role) :
    List (String × List TypeId) :=
  groupByName g (marked g w scope role)

theorem mem_declared_of_marked {scope : Scope} {ty : TypeId} (h : ty ∈ marked g w scope role) :
    ty ∈ g.declared :=
  TypeGraph.mem_declared_of_mem_declaredIn (List.mem_filter.mp (List.mem_filter.mp h).1).1

theorem mem_candidate {scope : Scope} {group : String × List TypeId}
    (hgroup : group ∈ candidates g w scope role) {ty : TypeId} :
    ty ∈ group.2 ↔ ty ∈ marked g w scope role ∧ g.metadataName? ty = some group.1 := by
  rw [(groupByName_grouped g _).members group hgroup, List.mem_filter, decide_eq_true_iff]

/-- A type in a group is declared, under the name of the group. -/
theorem candidates_declared (hg : g.Coherent) {scope : Scope} {group : String × List TypeId}
    (hgroup : group ∈ candidates g w scope role) {ty : TypeId} (hty : ty ∈ group.2) :
    ∃ h, g.form? ty = some (.declared h) ∧ h.metadataName = group.1 := by
  obtain ⟨hmarked, hname⟩ := (mem_candidate hgroup).mp hty
  obtain ⟨h, hf⟩ := hg.declared ty (mem_declared_of_marked hmarked)
  rw [TypeGraph.metadataName?_of_declared hf] at hname
  exact ⟨h, hf, Option.some.inj hname⟩

theorem candidates_cover (hg : g.Coherent) {scope : Scope} {ty : TypeId}
    (h : ty ∈ marked g w scope role) : ∃ group ∈ candidates g w scope role, ty ∈ group.2 := by
  obtain ⟨head, hf⟩ := hg.declared ty (mem_declared_of_marked h)
  have hname := TypeGraph.metadataName?_of_declared hf
  have hcovers := (groupByName_grouped g (marked g w scope role)).covers ty h _ hname
  obtain ⟨group, hgroup, hkey⟩ := List.mem_map.mp hcovers
  exact ⟨group, hgroup, (mem_candidate hgroup).mpr ⟨h, hkey ▸ hname⟩⟩

/-- A marker on one fragment is on all of them: a group holds every interface of its name that is in
scope, whatever the role. -/
theorem candidates_eq (hg : g.Coherent) {scope : Scope} {group : String × List TypeId}
    (hgroup : group ∈ candidates g w scope role) :
    group.2 = (g.declaredIn scope).filter fun ty =>
      g.kind? ty == some .interface && decide (g.metadataName? ty = some group.1) := by
  have hgrouped := groupByName_grouped g (marked g w scope role)
  have hmembers := hgrouped.members group hgroup
  obtain ⟨ty₀, h₀⟩ := List.exists_mem_of_ne_nil _ (hgrouped.nonempty group hgroup)
  rw [hmembers, List.mem_filter] at h₀
  have hdeclared := mem_declared_of_marked h₀.1
  have hmarked := (List.mem_filter.mp (List.mem_filter.mp h₀.1).1).2
  rw [hmembers, marked, TypeGraph.annotated, List.filter_filter, List.filter_filter]
  refine List.filter_congr fun ty hty => ?_
  by_cases hname : g.metadataName? ty = some group.1
  · have hsame := hg.hasAttribute?_congr (TypeGraph.mem_declared_of_mem_declaredIn hty) hdeclared
      (hname.trans (of_decide_eq_true h₀.2).symm) (markerOf w role)
    simp [hname, hsame, beq_iff_eq.mp hmarked]
  · simp [hname]

/-- A contract has the names of a head without type parameters, and its qualified name is the name
of its group. -/
theorem ofFragments?_head (hg : g.Coherent) {scope : Scope} {group : String × List TypeId}
    (hgroup : group ∈ candidates g w scope role) {c : Contract} {ds : List Diagnostic}
    (h : ofFragments? g w style role group.2 = some (some c, ds)) :
    ∃ head : TypeHead, c.name = head.name ∧ c.nameSpace = head.nameSpace ∧
      c.qualifiedName = head.qualifiedName ∧ c.qualifiedName = group.1 := by
  obtain ⟨first, qualifiedName, hfirst, hq, hcases⟩ := ofFragments?_cases h
  rcases hcases with ⟨_, e, _⟩ | ⟨hgeneric, _, _, name, nameSpace, _, _, hname, hns, e, _⟩
  · cases e
  · cases e
    have hmem : first ∈ group.2 := List.mem_of_head? hfirst
    obtain ⟨head, hf, hkey⟩ := candidates_declared hg hgroup hmem
    rw [TypeGraph.name?_of_declared hf] at hname
    rw [TypeGraph.nameSpace?_of_declared hf] at hns
    rw [TypeGraph.qualifiedName?_of_declared hf] at hq
    cases hname
    cases hns
    cases hq
    refine ⟨head, rfl, rfl, rfl, ?_⟩
    have harity : head.arity = 0 := by
      have := hgeneric first hmem
      rw [TypeGraph.isGeneric?_of_declared hf] at this
      by_contra hne
      exact this (congrArg some (decide_eq_true (Nat.pos_of_ne_zero hne)))
    rw [← hkey, TypeHead.metadataName, if_pos harity]

theorem discoverRole?_eq_some {scope : Scope} {cs : List Contract} {ds : List Diagnostic}
    (h : discoverRole? g w scope style role = some (cs, ds)) :
    ∃ found, List.Forall₂ (fun entry f => ofFragments? g w style role entry.2 = some f)
        (candidates g w scope role) found ∧
      cs = found.filterMap (·.1) ∧ ds = found.flatMap (·.2) := by
  unfold discoverRole? at h
  obtain ⟨found, hf, h⟩ := Option.bind_eq_some_iff.mp h
  cases h
  exact ⟨found, mapM_eq_some_iff.mp hf, rfl, rfl⟩

/-- The methods of a contract are flattened methods of its interface, as they are described. -/
theorem ofFragments?_methods {fragments : List TypeId} {c : Contract} {ds : List Diagnostic}
    (h : ofFragments? g w style role fragments = some (some c, ds)) :
    c.role = role ∧ ∃ ids, g.flattened? fragments = some ids ∧ (c.methods.map (·.id)).Sublist ids ∧
      ∀ m ∈ c.methods, describe? g w style m.id = some m := by
  obtain ⟨_, _, _, _, hcases⟩ := ofFragments?_cases h
  rcases hcases with ⟨_, e, _⟩ | ⟨_, ids, all, _, _, hids, hall, _, _, e, _⟩
  · cases e
  · cases e
    have hdescribed :
        List.Forall₂ (fun i m => describe? g w style m.id = some m ∧ i = m.id) ids all := by
      refine hall.imp fun i m hm => ?_
      have hi : i = m.id := by
        obtain ⟨_, _, _, _, e⟩ := describe?_eq_some hm
        rw [e]
      exact ⟨hi ▸ hm, hi⟩
    have hids' : ids = all.map (·.id) := by
      calc ids = ids.map id := (List.map_id ids).symm
        _ = all.map (·.id) := map_eq_map_of_forall₂ (hdescribed.imp fun _ _ h => h.2)
    refine ⟨rfl, ids, hids, ?_, fun m hm => ?_⟩
    · rw [hids']
      exact (rejectCollisions_sublist _ _ _).map _
    · obtain ⟨_, _, hm', _⟩ :=
        exists_of_mem_right hdescribed ((rejectCollisions_sublist _ _ _).subset hm)
      exact hm'

theorem ofFragments?_localNames {fragments : List TypeId} {c : Contract} {ds : List Diagnostic}
    (h : ofFragments? g w style role fragments = some (some c, ds)) :
    (c.methods.map (·.localName)).Nodup := by
  obtain ⟨_, _, _, _, ⟨_, e, _⟩ | ⟨_, _, _, _, _, _, _, _, _, e, _⟩⟩ := ofFragments?_cases h
  · cases e
  · cases e
    exact (rejectCollisions_localNames _ _ _).1

/-- The role has no part in what the methods of a contract are. -/
theorem ofFragments?_role {role' : Role} {fragments : List TypeId} {c c' : Contract}
    {ds ds' : List Diagnostic} (h : ofFragments? g w style role fragments = some (some c, ds))
    (h' : ofFragments? g w style role' fragments = some (some c', ds')) :
    c' = { c with role := role' } := by
  obtain ⟨first, q, hfirst, hq, ⟨_, e, _⟩ |
    ⟨_, ids, all, name, ns, hids, hall, hname, hns, e, _⟩⟩ := ofFragments?_cases h
  · cases e
  obtain ⟨first', q', hfirst', hq', ⟨_, e', _⟩ |
    ⟨_, ids', all', name', ns', hids', hall', hname', hns', e', _⟩⟩ := ofFragments?_cases h'
  · cases e'
  cases e
  cases e'
  cases hfirst.symm.trans hfirst'
  cases hq.symm.trans hq'
  cases hids.symm.trans hids'
  cases hname.symm.trans hname'
  cases hns.symm.trans hns'
  cases (mapM_eq_some_iff.mpr hall).symm.trans (mapM_eq_some_iff.mpr hall')
  rfl

/-- A contract has the role it was looked for, and methods as they are described. -/
theorem discoverRole?_described {scope : Scope} {cs : List Contract} {ds : List Diagnostic}
    (h : discoverRole? g w scope style role = some (cs, ds)) {c : Contract} (hc : c ∈ cs) :
    c.role = role ∧ ∀ m ∈ c.methods, describe? g w style m.id = some m := by
  obtain ⟨found, hfound, rfl, _⟩ := discoverRole?_eq_some h
  obtain ⟨⟨o, reports⟩, hmem, ho⟩ := List.mem_filterMap.mp hc
  cases ho
  obtain ⟨_, _, hf⟩ := exists_of_mem_right hfound hmem
  obtain ⟨hrole, _, _, _, hmethods⟩ := ofFragments?_methods hf
  exact ⟨hrole, hmethods⟩

theorem run?_eq_some {scope : Scope} {found : Discovery}
    (h : Discovery.run? g w scope style = some found) :
    ∃ hubReports receiverReports,
      discoverRole? g w scope style .hub = some (found.hubs, hubReports) ∧
      discoverRole? g w scope style .receiver = some (found.receivers, receiverReports) ∧
      found.diagnostics = hubReports ++ receiverReports := by
  unfold Discovery.run? at h
  obtain ⟨⟨hubs, hubReports⟩, hh, h⟩ := Option.bind_eq_some_iff.mp h
  obtain ⟨⟨receivers, receiverReports⟩, hr, h⟩ := Option.bind_eq_some_iff.mp h
  cases h
  exact ⟨hubReports, receiverReports, hh, hr, rfl⟩

end HubBindings.Contract
