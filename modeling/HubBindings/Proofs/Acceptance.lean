import HubBindings.Proofs.Manifest
import HubBindings.Proofs.TypeGraph.Resolution

/-!
Which manifests describe a graph.

A manifest asks something of the types it declares, those of the runtime included: first that
entries of one name have one kind, then what its attributes and references ask. Loading fails with
the error of what is asked first and not there (`load_meets`), so whether it succeeds does not
depend on where in the list a type is declared (`load_outcome`).
-/

namespace HubBindings.Manifest

open Sequencing TypeGraph

/-! ## What a manifest asks -/

/-- What the types of a manifest are, those of the runtime first. -/
def heads (m : Manifest) : List TypeHead :=
  (if m.coreLibrary then coreTypes else []) ++ m.types.map TypeEntry.head

/-- The references in the signature of a method, in the order in which they are resolved. -/
def MethodEntry.references (x : MethodEntry) : List TypeRef :=
  x.returns :: x.parameters.map (·.type)

/-- The references of an entry, in the order in which they are resolved. -/
def TypeEntry.references (e : TypeEntry) : List TypeRef :=
  e.bases ++ e.methods.flatMap MethodEntry.references

/-- The first type with the name of an entry has its kind. -/
def TypeEntry.kindRequirement (e : TypeEntry) : Requirement :=
  .kind e.head.metadataName e.kind

/-- What the members of an entry ask. -/
def TypeEntry.memberRequirements (e : TypeEntry) : List Requirement :=
  e.attributes.map .declared ++ e.references.flatMap TypeRef.requirements

/-- What a manifest asks, in the order in which it is checked. -/
def requirements (m : Manifest) : List Requirement :=
  m.types.map TypeEntry.kindRequirement ++ m.types.flatMap TypeEntry.memberRequirements

variable {g : TypeGraph} {hs : List TypeHead} {ty : TypeId}

/-! ## Declaring -/

theorem first?_isSome_of_mem {h : TypeHead} (hh : h ∈ hs) :
    ∃ first, TypeHead.first? hs h.metadataName = some first := by
  rw [← Option.isSome_iff_exists, TypeHead.first?, List.find?_isSome]
  exact ⟨h, hh, by simp⟩

/-- An entry is declared before its name is looked up. -/
theorem TypeEntry.declare_run (e : TypeEntry) (g : TypeGraph) :
    e.declare.run g = (do
      let first ← require e.head.metadataName
      let kind ← liftM ((g.declare { head := e.head }).2.kind? first)
      if kind = e.kind then return g.nextType
      else throw (.duplicateDefinition e.head.metadataName kind.name e.kind.name) :
        GraphM TypeId).run (g.declare { head := e.head }).2 := rfl

/-- An entry is compared with the first type of its name, which is there at the latest when the
entry is declared. -/
theorem TypeEntry.declare_meets {before : List TypeHead} (hg : g.Declares before) (e : TypeEntry)
    (after : List TypeHead) :
    Meets (before ++ e.head :: after) [e.kindRequirement] g e.declare fun g' ty =>
      g'.Declares (before ++ [e.head]) ∧ g'.Issued ty := by
  have hissued : g.IssuedDeclaration { head := e.head } := ⟨by simp, by simp, by simp⟩
  have hg₁ := hg.declare hissued
  have hchange : Change g (g.declare { head := e.head }).2 := .declare _ hissued
  have hmem : e.head ∈ before ++ [e.head] := by simp
  obtain ⟨h, hfirst⟩ := first?_isSome_of_mem hmem
  have hlater : TypeHead.first? (before ++ e.head :: after) e.head.metadataName = some h := by
    rw [List.append_cons, TypeHead.first?, List.find?_append, ← TypeHead.first?, hfirst,
      Option.some_or]
  have herror := Requirement.error?_of_first? (q := e.kindRequirement) hlater
  have hrel := hg₁.lookup e.head.metadataName
  rw [hfirst] at hrel
  generalize hl : (g.declare { head := e.head }).2.lookup e.head.metadataName = first at hrel
  cases hrel with
  | @some ty _ hf =>
    have hkind : (g.declare { head := e.head }).2.kind? ty = some h.kind := by
      rw [kind?, head?_of_declared hf, Option.map_some]
    have hrun : e.declare.run g = some (if h.kind = e.kind then .ok g.nextType else
        .error (.duplicateDefinition e.head.metadataName h.kind.name e.kind.name),
          (g.declare { head := e.head }).2) := by
      rw [declare_run]
      refine run_bind_iff.mpr (.inr ⟨ty, _, require_run hl, ?_⟩)
      rw [run_lift_bind, hkind, Option.bind_some]
      by_cases hk : h.kind = e.kind
      · rw [if_pos hk, if_pos hk]
        rfl
      · rw [if_neg hk, if_neg hk]
        rfl
    rw [Meets, Requirement.firstError?_singleton, herror]
    refine ⟨_, _, hrun, ?_⟩
    by_cases hk : h.kind = e.kind
    · have hnew : (g.declare { head := e.head }).2.Issued g.nextType :=
        issued_iff_form?.mpr ⟨_, form?_declare g _⟩
      exact .inr ⟨if_pos hk, g.nextType, if_pos hk, .single hchange, hg₁, hnew⟩
    · exact .inl ⟨_, if_neg hk, if_neg hk⟩

private theorem declareAll_meets {before : List TypeHead} (hg : g.Declares before)
    (es : List TypeEntry) :
    Meets (before ++ es.map TypeEntry.head) (es.map TypeEntry.kindRequirement) g
      (es.mapM TypeEntry.declare) fun g' tys =>
        g'.Declares (before ++ es.map TypeEntry.head) ∧ (∀ ty ∈ tys, g'.Issued ty) ∧
          tys.length = es.length := by
  induction es generalizing g before with
  | nil =>
    rw [List.map_nil, List.append_nil]
    exact .pure ⟨hg, by simp, rfl⟩
  | cons e es ih =>
    rw [List.mapM_cons, List.map_cons, List.map_cons]
    refine (e.declare_meets hg (es.map TypeEntry.head)).bind fun g₁ ty _ hty => ?_
    rw [List.append_cons]
    refine (ih hty.1).andThen fun g₂ tys hchanges htys => .pure ⟨htys.1, fun x hx => ?_, ?_⟩
    · rcases List.mem_cons.mp hx with rfl | hx
      · exact hchanges.issued hty.2
      · exact htys.2.1 x hx
    · exact congrArg Nat.succ htys.2.2

/-! ## Attaching members -/

theorem MethodEntry.resolve_meets (hg : g.Declares hs) (x : MethodEntry) :
    Meets hs (x.references.flatMap TypeRef.requirements) g x.resolve fun g' y =>
      g'.Declares hs ∧ g'.IssuedMethod y := by
  have hparameter : ∀ (p : ParameterEntry) {g₁ : TypeGraph}, g₁.Declares hs →
      Meets hs p.type.requirements g₁ p.resolve fun g' q => g'.Declares hs ∧ g'.Issued q.type :=
    fun p _ hg₁ => (TypeGraph.resolve_meets p.type hg₁).andThen fun _ _ _ hty => .pure hty
  rw [MethodEntry.references, List.flatMap_cons, List.flatMap_map]
  refine (TypeGraph.resolve_meets x.returns hg).bind fun g₁ returns _ hreturns => ?_
  have hparameters : Meets hs (x.parameters.flatMap fun p => p.type.requirements) g₁
      (x.parameters.mapM ParameterEntry.resolve) fun g' qs =>
        g'.Declares hs ∧ ∀ q ∈ qs, g'.Issued q.type :=
    .mapM hreturns.1 (fun hchanges h => hchanges.issued h) fun p _ _ hg₁ => hparameter p hg₁
  refine hparameters.andThen fun g₂ parameters hchanges hall => .pure ⟨hall.1, ?_⟩
  exact ⟨hchanges.issued hreturns.2, hall.2⟩

/-- A member is attached to a type that is there without asking anything. -/
theorem attach_meets {α : Type} {add : TypeGraph → Option α} {k : α → TypeGraph} {a : α}
    (hg : g.Declares hs) (hadd : add g = some a) (hchange : Change g (k a))
    (hdeclared : (k a).declared = g.declared) :
    Meets hs [] g (do set (k (← liftM (add (← get))))) fun g' _ => g'.Declares hs := by
  have hrun : (do set (k (← liftM (add (← get)))) : GraphM Unit).run g =
      some (.ok (), k a) := by
    rw [run_get_bind, run_lift_bind, hadd]
    rfl
  exact .ok hrun (.single hchange) (hg.kept (.single hchange) hdeclared)

private theorem attachAttribute_meets (hg : g.Declares hs) (hty : g.Issued ty) (name : String) :
    Meets hs [.declared name] g (attachAttribute ty name) fun g' _ => g'.Declares hs := by
  refine (require_meets hg name).andThen fun g₁ marker hchanges hmarker => ?_
  have hty₁ := hchanges.issued hty
  obtain ⟨g₂, hadd⟩ : ∃ g₂, g₁.addAttribute? ty marker = some g₂ := exists_modify? hty₁ _
  have hissued : g₁.Issued marker := hmarker.1.consistent.issued_of_lookup hmarker.2
  exact attach_meets (k := id) hmarker.1 hadd (.addAttribute hty₁ hissued hadd)
    (modify?_addsMember (by intro s; rfl) hadd).declared

private theorem attachBase_meets (hg : g.Declares hs) (hty : g.Issued ty) (ref : TypeRef) :
    Meets hs ref.requirements g (attachBase ty ref) fun g' _ => g'.Declares hs := by
  refine (resolve_meets ref hg).andThen fun g₁ base hchanges hbase => ?_
  have hty₁ := hchanges.issued hty
  obtain ⟨g₂, hadd⟩ : ∃ g₂, g₁.addBase? ty base = some g₂ := exists_modify? hty₁ _
  exact attach_meets (k := id) hbase.1 hadd (.addBase hty₁ hbase.2 hadd)
    (modify?_addsMember (by intro s; rfl) hadd).declared

private theorem attachMethod_meets (hg : g.Declares hs) (hty : g.Issued ty) (entry : MethodEntry) :
    Meets hs (entry.references.flatMap TypeRef.requirements) g (attachMethod ty entry)
      fun g' _ => g'.Declares hs := by
  refine (entry.resolve_meets hg).andThen fun g₁ x hchanges hx => ?_
  have hty₁ := hchanges.issued hty
  obtain ⟨added, hadd⟩ := exists_addMethod? hty₁ x
  exact attach_meets hx.1 hadd (.addMethod hty₁ hx.2 hadd) (addMethod?_addsMember hadd).declared

theorem TypeEntry.attach_meets (hg : g.Declares hs) (hty : g.Issued ty) (e : TypeEntry) :
    Meets hs e.memberRequirements g (e.attach ty) fun g' _ => g'.Declares hs := by
  have hattributes : Meets hs (e.attributes.flatMap fun name => [.declared name]) g
      (e.attributes.forM (attachAttribute ty)) fun g' _ => g'.Declares hs :=
    .forM hg fun name _ _ hg₁ hchanges => attachAttribute_meets hg₁ (hchanges.issued hty) name
  rw [TypeEntry.memberRequirements, TypeEntry.references, List.flatMap_append,
    List.flatMap_assoc, List.map_eq_flatMap]
  refine hattributes.bind fun g₁ _ hchanges₁ hg₁ => ?_
  have hty₁ := hchanges₁.issued hty
  refine Meets.bind (.forM hg₁ fun ref _ _ hg₂ hchanges =>
    attachBase_meets hg₂ (hchanges.issued hty₁) ref) fun g₂ _ hchanges₂ hg₂ => ?_
  have hty₂ := hchanges₂.issued hty₁
  exact .forM hg₂ fun x _ _ hg₃ hchanges => attachMethod_meets hg₃ (hchanges.issued hty₂) x

/-! ## Loading -/

private theorem build_meets {before : List TypeHead} (hg : g.Declares before) (m : Manifest) :
    Meets (before ++ m.types.map TypeEntry.head) m.requirements g m.build fun g' _ =>
      g'.Declares (before ++ m.types.map TypeEntry.head) := by
  refine (declareAll_meets hg m.types).bind fun g₁ tys _ htys => ?_
  obtain ⟨hg₁, hissued, hlength⟩ := htys
  have hentries : (m.types.zip tys).flatMap (fun p => p.1.memberRequirements) =
      m.types.flatMap TypeEntry.memberRequirements := by
    rw [← List.flatMap_map, List.map_fst_zip (by omega)]
  rw [← hentries]
  refine .forM hg₁ fun p hp g₂ hg₂ hchanges => ?_
  exact p.1.attach_meets hg₂ (hchanges.issued (hissued p.2 (List.of_mem_zip hp).2))

private theorem declares_declareAll {before : List TypeHead} (hg : g.Declares before)
    (hs : List TypeHead) :
    (TypeGraph.declareAll (hs.map fun h => { head := h }) g).Declares (before ++ hs) := by
  induction hs generalizing g before with
  | nil =>
    rw [List.append_nil]
    exact hg
  | cons h hs ih =>
    rw [List.append_cons]
    exact ih (hg.declare (d := { head := h }) ⟨by simp, by simp, by simp⟩)

private theorem base_declares (m : Manifest) :
    m.base.Declares (if m.coreLibrary then coreTypes else []) := by
  unfold base
  split
  · rw [core_eq_declareAll]
    exact declares_declareAll .empty coreTypes
  · exact .empty

/-- Loading fails with the error of what is asked first and not there. -/
theorem load_meets (m : Manifest) :
    ∃ r, m.load = some r ∧
      ((∃ e, Requirement.firstError? m.heads m.requirements = some e ∧ r = .error e) ∨
        (Requirement.firstError? m.heads m.requirements = none ∧ ∃ g, r = .ok g)) := by
  obtain ⟨r, g, hrun, hcases⟩ := build_meets m.base_declares m
  unfold load
  rw [hrun]
  rcases hcases with ⟨e, he, rfl⟩ | ⟨hnone, _, rfl, _⟩
  · exact ⟨_, rfl, .inl ⟨e, he, rfl⟩⟩
  · exact ⟨_, rfl, .inr ⟨hnone, g, rfl⟩⟩

/-- A loaded graph declares what the types of the manifest are, in their order. -/
theorem load_declares {m : Manifest} (h : m.load = some (.ok g)) : g.Declares m.heads := by
  obtain ⟨r, g', hrun, hcases⟩ := build_meets m.base_declares m
  cases (load_eq_ok h).symm.trans hrun
  rcases hcases with ⟨e, _, hr⟩ | ⟨_, _, _, _, hdeclares⟩
  · cases hr
  · exact hdeclares

/-! ## Manifests that can be loaded -/

variable {m : Manifest}

/-- A type of the manifest has the metadata name. -/
def Declared (m : Manifest) (name : String) : Prop := ∃ h ∈ m.heads, h.metadataName = name

/-- An entry has another kind than the first type with its name. -/
def Conflicting (m : Manifest) : Prop :=
  ∃ e ∈ m.types, ∃ first, TypeHead.first? m.heads e.head.metadataName = some first ∧
    e.kind ≠ first.kind

/-- The names in attributes and references are names of types of the manifest, and generic
references have as many arguments as the first type with their name has type parameters. -/
structure Resolvable (m : Manifest) : Prop where
  attributes : ∀ e ∈ m.types, ∀ name ∈ e.attributes, m.Declared name
  names : ∀ e ∈ m.types, ∀ ref ∈ e.references, ∀ name, (TypeRef.named name).Within ref →
    m.Declared name
  definitions : ∀ e ∈ m.types, ∀ ref ∈ e.references, ∀ name arguments,
    (TypeRef.generic name arguments).Within ref → m.Declared name
  arities : ∀ e ∈ m.types, ∀ ref ∈ e.references, ∀ name arguments,
    (TypeRef.generic name arguments).Within ref →
      ∀ first, TypeHead.first? m.heads name = some first → first.arity = arguments.length

private theorem declared_iff_first? {name : String} :
    m.Declared name ↔ ∃ first, TypeHead.first? m.heads name = some first := by
  constructor
  · rintro ⟨h, hh, rfl⟩
    exact first?_isSome_of_mem hh
  · rintro ⟨first, hfirst⟩
    exact ⟨first, List.mem_of_find?_eq_some hfirst, by simpa using List.find?_some hfirst⟩

/-- What an entry asks about its kind is answered by the first type with its name. -/
theorem kindRequirement_error? {e : TypeEntry} (he : e ∈ m.types) :
    ∃ first, TypeHead.first? m.heads e.head.metadataName = some first ∧
      e.kindRequirement.error? m.heads = e.kindRequirement.conflict? first := by
  have hmem : e.head ∈ m.heads := List.mem_append_right _ (List.mem_map_of_mem he)
  obtain ⟨first, hfirst⟩ := first?_isSome_of_mem hmem
  exact ⟨first, hfirst, Requirement.error?_of_first? hfirst⟩

theorem kinds_agree_iff :
    Requirement.firstError? m.heads (m.types.map TypeEntry.kindRequirement) = none ↔
      ¬m.Conflicting := by
  rw [Requirement.firstError?_eq_none_iff]
  constructor
  · rintro hnone ⟨e, he, first, hfirst, hkind⟩
    have herror := hnone _ (List.mem_map_of_mem he)
    rw [Requirement.error?_of_first? (q := e.kindRequirement) hfirst, TypeEntry.kindRequirement,
      Requirement.conflict?, if_neg hkind.symm] at herror
    cases herror
  · intro hagree q hq
    obtain ⟨e, he, rfl⟩ := List.mem_map.mp hq
    obtain ⟨first, hfirst, herror⟩ := kindRequirement_error? he
    by_cases hkind : first.kind = e.kind
    · rw [herror, TypeEntry.kindRequirement, Requirement.conflict?, if_pos hkind]
    · exact absurd ⟨e, he, first, hfirst, Ne.symm hkind⟩ hagree

private theorem kind_error {err : GraphError}
    (h : Requirement.firstError? m.heads (m.types.map TypeEntry.kindRequirement) = some err) :
    ∃ name first second, err = .duplicateDefinition name first second := by
  obtain ⟨q, hq, herr⟩ := List.exists_of_findSome?_eq_some h
  obtain ⟨e, he, rfl⟩ := List.mem_map.mp hq
  obtain ⟨first, _, herror⟩ := kindRequirement_error? he
  rw [herror, TypeEntry.kindRequirement, Requirement.conflict?] at herr
  split at herr
  · cases herr
  · exact ⟨_, _, _, (Option.some.inj herr).symm⟩

private theorem declared_error?_eq_none_iff {name : String} :
    (Requirement.declared name).error? m.heads = none ↔ m.Declared name := by
  rw [Requirement.error?_eq_none_iff, declared_iff_first?]
  simp [Requirement.name, Requirement.conflict?]

private theorem arity_error?_eq_none_iff {name : String} {count : Nat} :
    (Requirement.arity name count).error? m.heads = none ↔
      ∃ first, TypeHead.first? m.heads name = some first ∧ first.arity = count := by
  rw [Requirement.error?_eq_none_iff]
  simp [Requirement.name, Requirement.conflict?]

private theorem mem_memberRequirements {e : TypeEntry} {q : Requirement} :
    q ∈ e.memberRequirements ↔ (∃ name ∈ e.attributes, q = .declared name) ∨
      ∃ ref ∈ e.references, ∃ part, TypeRef.Within part ref ∧ q ∈ part.ownRequirements := by
  simp only [TypeEntry.memberRequirements, List.mem_append, List.mem_map, List.mem_flatMap,
    TypeRef.mem_requirements, eq_comm]

private theorem members_met_iff :
    Requirement.firstError? m.heads (m.types.flatMap TypeEntry.memberRequirements) = none ↔
      m.Resolvable := by
  simp only [Requirement.firstError?_eq_none_iff, List.mem_flatMap, mem_memberRequirements]
  constructor
  · intro hmet
    refine ⟨fun e he name hname => ?_, fun e he ref href name hwithin => ?_,
      fun e he ref href name arguments hwithin => ?_,
      fun e he ref href name arguments hwithin first hfirst => ?_⟩
    · exact declared_error?_eq_none_iff.mp (hmet _ ⟨e, he, .inl ⟨name, hname, rfl⟩⟩)
    · refine declared_error?_eq_none_iff.mp (hmet _ ⟨e, he, .inr ⟨ref, href, _, hwithin, ?_⟩⟩)
      simp [TypeRef.ownRequirements]
    · refine declared_error?_eq_none_iff.mp (hmet _ ⟨e, he, .inr ⟨ref, href, _, hwithin, ?_⟩⟩)
      simp [TypeRef.ownRequirements]
    · have hown : Requirement.arity name arguments.length ∈
          (TypeRef.generic name arguments).ownRequirements := by
        simp [TypeRef.ownRequirements]
      obtain ⟨first', hfirst', harity⟩ := arity_error?_eq_none_iff.mp
        (hmet _ ⟨e, he, .inr ⟨ref, href, _, hwithin, hown⟩⟩)
      cases hfirst.symm.trans hfirst'
      exact harity
  · rintro hm q ⟨e, he, ⟨name, hname, rfl⟩ | ⟨ref, href, part, hwithin, hq⟩⟩
    · exact declared_error?_eq_none_iff.mpr (hm.attributes e he name hname)
    · cases part with
      | named name =>
        cases List.mem_singleton.mp hq
        exact declared_error?_eq_none_iff.mpr (hm.names e he ref href name hwithin)
      | generic name arguments =>
        have hdeclared := hm.definitions e he ref href name arguments hwithin
        simp only [TypeRef.ownRequirements, List.mem_cons, List.not_mem_nil, or_false] at hq
        rcases hq with rfl | rfl
        · exact declared_error?_eq_none_iff.mpr hdeclared
        · obtain ⟨first, hfirst⟩ := declared_iff_first?.mp hdeclared
          have harity := hm.arities e he ref href name arguments hwithin first hfirst
          exact arity_error?_eq_none_iff.mpr ⟨first, hfirst, harity⟩
      | array element => cases hq

/-- Members ask nothing about kinds. -/
theorem kind_not_mem_memberRequirements {e : TypeEntry} {name : String} {kind : TypeKind} :
    Requirement.kind name kind ∉ e.memberRequirements := by
  rw [mem_memberRequirements]
  rintro (⟨_, _, heq⟩ | ⟨_, _, part, _, hq⟩)
  · cases heq
  · cases part <;> simp [TypeRef.ownRequirements] at hq

private theorem member_error {err : GraphError}
    (h : Requirement.firstError? m.heads (m.types.flatMap TypeEntry.memberRequirements) =
      some err) :
    (∃ name, err = .unresolvedType name) ∨
      ∃ name expected found, err = .arityMismatch name expected found := by
  obtain ⟨q, hq, herr⟩ := List.exists_of_findSome?_eq_some h
  cases hfirst : TypeHead.first? m.heads q.name with
  | none =>
    rw [Requirement.error?_of_first?_none hfirst] at herr
    exact .inl ⟨_, (Option.some.inj herr).symm⟩
  | some first =>
    rw [Requirement.error?_of_first? hfirst] at herr
    cases q with
    | declared name => cases herr
    | kind name kind =>
      obtain ⟨e, _, hkind⟩ := List.mem_flatMap.mp hq
      exact absurd hkind kind_not_mem_memberRequirements
    | arity name count =>
      rw [Requirement.conflict?] at herr
      split at herr
      · cases herr
      · exact .inr ⟨_, _, _, (Option.some.inj herr).symm⟩

/-- Loading fails for two kinds of one name whatever the references are; otherwise it succeeds
exactly if all names can be resolved and generic references have the right number of arguments. -/
theorem load_outcome (m : Manifest) :
    ∃ r, m.load = some r ∧
      ((∃ name first second, r = .error (.duplicateDefinition name first second)) ↔
        m.Conflicting) ∧
      ((∃ g, r = .ok g) ↔ ¬m.Conflicting ∧ m.Resolvable) ∧
      ((∃ name, r = .error (.unresolvedType name)) ∨
          (∃ name expected found, r = .error (.arityMismatch name expected found)) ↔
        ¬m.Conflicting ∧ ¬m.Resolvable) := by
  obtain ⟨r, hload, hcases⟩ := m.load_meets
  rw [requirements, Requirement.firstError?_append] at hcases
  refine ⟨r, hload, ?_⟩
  rw [← kinds_agree_iff, ← members_met_iff, ← not_iff_not (b := m.Conflicting), ← kinds_agree_iff]
  cases hkinds : Requirement.firstError? m.heads (m.types.map TypeEntry.kindRequirement) with
  | some err =>
    obtain ⟨name, first, second, rfl⟩ := kind_error hkinds
    rw [hkinds, Option.some_or] at hcases
    obtain ⟨_, he, rfl⟩ | ⟨hnone, _⟩ := hcases
    · cases he
      simp
    · cases hnone
  | none =>
    rw [hkinds, Option.none_or] at hcases
    rcases hcases with ⟨err, he, rfl⟩ | ⟨hnone, g, rfl⟩
    · rcases member_error he with ⟨name, rfl⟩ | ⟨name, expected, found, rfl⟩
      · simp [he]
      · simp [he]
    · simp [hnone]

end HubBindings.Manifest
