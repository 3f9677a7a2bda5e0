import HubBindings.Proofs.Generator
import HubBindings.Proofs.Manifest
import HubBindings.Proofs.Rendering.Renaming
import HubBindings.Proofs.TypeGraph.Kept

/-!
Runs on a graph and on a renaming of it.

Every stage of a run is followed on both graphs: shapes, contracts, bindings. Addresses in between
are renamed, and in the end none are left (`Translation.generate?`). The set of data types that a
contract refers to is kept in the order of addresses, which a renaming does not respect, but the
imports made from it are put in an order of their own (`Embedding.imports`).
-/

namespace HubBindings

open Sequencing TypeGraph

variable {g g' : TypeGraph} {f : TypeId → TypeId} {k : MethodId → MethodId} {w w' : WellKnown}

/-! ## Shapes -/

namespace TypeGraph.Embedding

variable (t : Embedding g g' f k) (hw : WellKnown.Renamed g f w w') {ty ty' : TypeId}
  (h : g.Renamed f ty ty')
include t hw h

theorem featured? : Both (g.Renamed f) (Call.featured? g w ty) (Call.featured? g' w' ty') := by
  have inside : ∀ {a a'}, g.Renamed f a a' →
      Both (g.Renamed f) (do return (← g.firstArgument? a).getD a)
        (do return (← g'.firstArgument? a').getD a') := by
    intro a a' ha
    refine .bind (t.firstArgument? ha) fun o o' ho => .some ?_
    cases ho with
    | none => exact ha
    | some hpart => exact hpart.renamed
  refine .bind (t.isStream? hw h) fun b b' hb => ?_
  subst hb
  cases b with
  | true => exact inside h
  | false =>
    refine .bind (t.isGenericTask? hw h) fun b b' hb => ?_
    subst hb
    cases b with
    | false => exact .some h
    | true =>
      refine .bind (t.firstArgument? h) fun o o' ho => ?_
      cases ho with
      | none => exact .some h
      | some hinner =>
        refine .bind (t.isStream? hw hinner.renamed) fun b b' hb => ?_
        subst hb
        cases b with
        | true => exact inside hinner.renamed
        | false => exact .some hinner.renamed

theorem isTaskOfStream? :
    Both Eq (Call.isTaskOfStream? g w ty) (Call.isTaskOfStream? g' w' ty') := by
  have hresult : Both (Option.Rel (RenamedPart g f ty ty')) (Call.taskResult? g w ty)
      (Call.taskResult? g' w' ty') := by
    refine .bind (t.isGenericTask? hw h) fun b b' hb => ?_
    subst hb
    cases b with
    | true => exact t.firstArgument? h
    | false => exact .some .none
  refine .bind hresult fun o o' ho => ?_
  cases ho with
  | none => exact .some rfl
  | some hinner => exact t.isStream? hw hinner.renamed

theorem returnsStream? : Both Eq (Call.returnsStream? g w ty) (Call.returnsStream? g' w' ty') := by
  refine .bind (t.isConstructedFrom? h hw.asyncEnumerable) fun b b' hb => ?_
  subst hb
  cases b with
  | true => exact .some rfl
  | false => exact t.isTaskOfStream? hw h

omit h in
theorem classify? {x x' : Method} (hx : RenamedSignature g f x x') :
    Both (fun c c' => c'.shape = c.shape) (Call.classify? g w x) (Call.classify? g' w' x') := by
  refine .bind (.findM? hx.parameters fun p p' hp => t.isStream? hw hp.type) fun o o' ho => ?_
  refine .bind (t.returnsStream? hw hx.returns) fun b b' hb => ?_
  subst hb
  cases b with
  | true => exact .bind (t.featured? hw hx.returns) fun _ _ _ => .some rfl
  | false =>
    simp only [Bool.false_eq_true, ↓reduceIte]
    cases ho with
    | some hp => exact .bind (t.featured? hw hp.type) fun _ _ _ => .some rfl
    | none =>
      rw [t.isTask hw hx.returns]
      refine .ite (fun _ => .some rfl) fun _ => ?_
      exact .bind (t.featured? hw hx.returns) fun _ _ _ => .some rfl

theorem violation? (role : Role) (shape : CallShape) :
    Both Eq (Call.violation? g w role shape ty) (Call.violation? g' w' role shape ty') := by
  have report : ∀ text : String, Both Eq (do return some (text ++ (← g.display? ty)))
      (do return some (text ++ (← g'.display? ty'))) := fun _ =>
    .bind (t.display? h) fun _ _ hd => .some (by rw [hd])
  cases role with
  | hub =>
    refine .bind (t.isGenericTask? hw h) fun b b' hb => ?_
    subst hb
    rw [t.isTask hw h]
    cases shape with
    | serverStream => exact .some rfl
    | clientStream => exact .ite (fun _ => .some rfl) fun _ => report _
    | unary => exact .ite (fun _ => .some rfl) fun _ => report _
  | receiver =>
    refine .bind (t.isGenericTask? hw h) fun b b' hb => ?_
    refine .bind (t.isTaskOfStream? hw h) fun s s' hs => ?_
    subst hb hs
    rw [t.isTask hw h]
    exact .ite (fun _ => .some rfl) fun _ => report _

end TypeGraph.Embedding

/-! ## Contracts -/

/-- A method of a contract with its types renamed. -/
structure ContractMethod.Renamed (g : TypeGraph) (f : TypeId → TypeId) (m m' : ContractMethod) :
    Prop where
  localName : m'.localName = m.localName
  wireName : m'.wireName = m.wireName
  parameters : List.Forall₂ (RenamedParameter g f) m.parameters m'.parameters
  returns : g.Renamed f m.returns m'.returns
  shape : m'.call.shape = m.call.shape

/-- A contract with the types in its methods renamed. -/
structure Contract.Renamed (g : TypeGraph) (f : TypeId → TypeId) (c c' : Contract) : Prop where
  name : c'.name = c.name
  nameSpace : c'.nameSpace = c.nameSpace
  qualifiedName : c'.qualifiedName = c.qualifiedName
  role : c'.role = c.role
  methods : List.Forall₂ (ContractMethod.Renamed g f) c.methods c'.methods

/-- Only the names of methods decide which of them are kept and what is reported. -/
theorem Contract.rejectCollisions_renamed {ms ms' : List ContractMethod}
    (h : List.Forall₂ (ContractMethod.Renamed g f) ms ms') (subject : String)
    (taken : List (String × String)) :
    List.Forall₂ (ContractMethod.Renamed g f) (rejectCollisions subject taken ms).1
        (rejectCollisions subject taken ms').1 ∧
      (rejectCollisions subject taken ms').2 = (rejectCollisions subject taken ms).2 := by
  induction h generalizing taken with
  | nil => exact ⟨.nil, rfl⟩
  | cons hm _ ih =>
    rw [rejectCollisions, rejectCollisions, hm.localName]
    cases taken.lookup _ with
    | some first =>
      obtain ⟨hkept, hreports⟩ := ih taken
      refine ⟨hkept, ?_⟩
      simp only [hreports, collision, hm.localName, hm.wireName]
    | none =>
      obtain ⟨hkept, hreports⟩ := ih ((_, _) :: taken)
      rw [hm.wireName]
      exact ⟨.cons hm hkept, hreports⟩

/-- A group of marked interfaces with its types renamed. -/
def RenamedGroup (g : TypeGraph) (f : TypeId → TypeId) (e e' : String × List TypeId) : Prop :=
  e'.1 = e.1 ∧ List.Forall₂ (g.Renamed f) e.2 e'.2

theorem Contract.addToGroup_renamed {groups groups' : List (String × List TypeId)}
    (h : List.Forall₂ (RenamedGroup g f) groups groups') (name : String) {ty ty' : TypeId}
    (hty : g.Renamed f ty ty') :
    List.Forall₂ (RenamedGroup g f) (addToGroup groups name ty) (addToGroup groups' name ty') := by
  have hany : groups.any (fun e => e.1 == name) = groups'.any (fun e => e.1 == name) :=
    any_eq_any_of_forall₂ h fun e e' he => by rw [he.1]
  unfold addToGroup
  rw [hany]
  split
  · refine List.rel_map (fun e e' he => ?_) h
    obtain ⟨n, tys⟩ := e
    obtain ⟨n', tys'⟩ := e'
    obtain ⟨rfl, htys⟩ := he
    simp only
    split
    · exact ⟨rfl, List.rel_append htys (.cons hty .nil)⟩
    · exact ⟨rfl, htys⟩
  · exact List.rel_append h (.cons ⟨rfl, .cons hty .nil⟩ .nil)

namespace TypeGraph.Embedding

open Contract

variable (t : Embedding g g' f k)
include t

theorem groupByName {tys tys' : List TypeId} (h : List.Forall₂ (g.Renamed f) tys tys') :
    List.Forall₂ (RenamedGroup g f) (groupByName g tys) (groupByName g' tys') := by
  refine List.rel_foldl (fun groups groups' hgroups ty ty' hty => ?_) .nil h
  obtain ⟨n, _, hn, hn', rfl⟩ := t.metadataName? hty
  rw [hn, hn']
  exact addToGroup_renamed hgroups n hty

variable (hw : WellKnown.Renamed g f w w')
include hw

/-- Interfaces with the marker of a role, out of some types. -/
theorem marked (role : Role) {tys tys' : List TypeId}
    (h : List.Forall₂ (g.Renamed f) tys tys') :
    List.Forall₂ (g.Renamed f)
      ((tys.filter fun ty => g.hasAttribute? ty (markerOf w role) == some true).filter fun ty =>
        g.kind? ty == some .interface)
      ((tys'.filter fun ty => g'.hasAttribute? ty (markerOf w' role) == some true).filter fun ty =>
        g'.kind? ty == some .interface) := by
  have hmarker : g.Renamed f (markerOf w role) (markerOf w' role) := by
    cases role with
    | hub => exact hw.hubMarker
    | receiver => exact hw.receiverMarker
  refine forall₂_filter (forall₂_filter h fun ty ty' hty => ?_) fun ty ty' hty => ?_
  · obtain ⟨b, _, hb, hb', rfl⟩ := t.hasAttribute? hty hmarker
    rw [hb, hb']
  · obtain ⟨kind, _, hkind, hkind', rfl⟩ := t.kind? hty
    rw [hkind, hkind']

theorem describe? (style : NamingStyle) {m m' : MethodId} (h : RenamedMethod g k m m') :
    Both (ContractMethod.Renamed g f) (describe? g w style m) (describe? g' w' style m') := by
  refine .bind (t.method? h) fun x x' hx => .bind (t.classify? hw hx) fun c c' hc => .some ?_
  exact ⟨congrArg style.apply hx.name, hx.name, hx.parameters, hx.returns, hc⟩

theorem ofFragments? (style : NamingStyle) (role : Role) {fragments fragments' : List TypeId}
    (h : List.Forall₂ (g.Renamed f) fragments fragments') (hne : fragments ≠ []) :
    Both (fun o o' => Option.Rel (Contract.Renamed g f) o.1 o'.1 ∧ o'.2 = o.2)
      (ofFragments? g w style role fragments) (ofFragments? g' w' style role fragments') := by
  have hfirst : Both (g.Renamed f) fragments.head? fragments'.head? := by
    cases h with
    | nil => exact absurd rfl hne
    | cons hfirst _ => exact .some hfirst
  have hgeneric : fragments.any (fun x => g.isGeneric? x == some true) =
      fragments'.any (fun x => g'.isGeneric? x == some true) := by
    refine any_eq_any_of_forall₂ h fun x x' hx => ?_
    obtain ⟨b, _, hb, hb', rfl⟩ := t.isGeneric? hx
    rw [hb, hb']
  refine .bind hfirst fun first first' hfirst => ?_
  refine .bind (t.qualifiedName? hfirst) fun q q' hq => ?_
  subst hq
  rw [hgeneric]
  refine .ite (fun _ => .some ⟨.none, rfl⟩) fun _ => ?_
  refine .bind (t.flattened? h) fun ids ids' hids => ?_
  refine .bind (.mapM hids fun _ _ hid => t.describe? hw style hid) fun all all' hall => ?_
  obtain ⟨hkept, hreports⟩ := rejectCollisions_renamed hall q []
  refine .bind (t.name? hfirst) fun n n' hn => .bind (t.nameSpace? hfirst) fun ns ns' hns => ?_
  exact .some ⟨.some ⟨hn.symm, hns.symm, rfl, rfl, hkept⟩, hreports⟩

theorem ofGroups (style : NamingStyle) (role : Role)
    {groups groups' : List (String × List TypeId)}
    (h : List.Forall₂ (fun e e' => RenamedGroup g f e e' ∧ e.2 ≠ []) groups groups') :
    Both (fun found found' => List.Forall₂ (Contract.Renamed g f) (found.filterMap (·.1))
          (found'.filterMap (·.1)) ∧ found'.flatMap (·.2) = found.flatMap (·.2))
      (groups.mapM fun e => Contract.ofFragments? g w style role e.2)
      (groups'.mapM fun e => Contract.ofFragments? g' w' style role e.2) := by
  have hall := Both.mapM h fun e e' he => t.ofFragments? hw style role he.1.2 he.2
  refine hall.mono fun found found' _ _ hfound => ⟨?_, ?_⟩
  · exact List.rel_filterMap (fun o o' ho => ho.1) hfound
  · have hreports := map_eq_map_of_forall₂ (hfound.imp fun _ _ ho => ho.2.symm)
    simp only [List.flatMap_def, hreports]

end TypeGraph.Embedding

/-! ## Bindings -/

/-- A bound method or parameter list, and what it refers to up to renaming. -/
def RenamedResult {α : Type} (g : TypeGraph) (f : TypeId → TypeId) (q q' : α × References) : Prop :=
  q'.1 = q.1 ∧ References.Renamed g f q.2 q'.2

namespace Binding

variable {α : Type} {outcomes outcomes' : List (Except Diagnostic (α × References))}

private theorem kept_renamed (h : List.Forall₂ (Agree (RenamedResult g f)) outcomes outcomes') :
    List.Forall₂ (RenamedResult g f) (kept outcomes) (kept outcomes') := by
  refine List.rel_filterMap (fun o o' ho => ?_) h
  cases ho with
  | ok hq => exact .some hq
  | error d => exact .none

private theorem reports_renamed (h : List.Forall₂ (Agree (RenamedResult g f)) outcomes outcomes') :
    reports outcomes' = reports outcomes := by
  have hall : List.Forall₂ Eq (reports outcomes) (reports outcomes') := by
    refine List.rel_filterMap (fun o o' ho => ?_) h
    cases ho with
    | ok hq => exact .none
    | error d => exact .some rfl
  rw [List.forall₂_eq_eq_eq] at hall
  exact hall.symm

private theorem references_renamed {bound bound' : List (α × References)}
    (h : List.Forall₂ (RenamedResult g f) bound bound') :
    References.Renamed g f (bound.foldl (fun all (_, r) => all.union r) {})
      (bound'.foldl (fun all (_, r) => all.union r) {}) :=
  List.rel_foldl (fun _ _ hall _ _ hq => hall.union hq.2) .empty h

end Binding

namespace TypeGraph.Embedding

open Binding

variable (t : Embedding g g' f k)
include t

private theorem importOf {ty ty' : TypeId} (h : g.Renamed f ty ty') :
    Both Eq (import? g ty) (import? g' ty') :=
  .bind (t.nameSpace? h) fun _ _ hns => .bind (t.name? h) fun _ _ hn => .some (by rw [hns, hn])

/-- Data types that are renamed are imported under the same names. -/
theorem imports {r r' : References} (h : References.Renamed g f r r') :
    Both (fun is is' => Ascending.ofList is' = Ascending.ofList is)
      (r.dataTypes.mapM (import? g)) (r'.dataTypes.mapM (import? g')) := by
  have hsame : ∀ d ∈ r.dataTypes, ∃ i, import? g d = some i ∧ import? g' (f d) = some i := by
    intro d hd
    obtain ⟨i, _, hi, hi', rfl⟩ := t.importOf ⟨h.issued d hd, rfl⟩
    exact ⟨i, hi, hi'⟩
  obtain ⟨is, his, _⟩ : Answers (r.dataTypes.mapM (import? g)) := by
    refine Yields.answers (.mapM (Q := fun _ => True) fun d hd => ?_)
    obtain ⟨i, hi, _⟩ := hsame d hd
    exact ⟨i, hi, trivial⟩
  obtain ⟨is', his', _⟩ : Answers (r'.dataTypes.mapM (import? g')) := by
    refine Yields.answers (.mapM (Q := fun _ => True) fun d' hd' => ?_)
    obtain ⟨d, hd, rfl⟩ := (h.dataTypes d').mp hd'
    obtain ⟨i, _, hi'⟩ := hsame d hd
    exact ⟨i, hi', trivial⟩
  -- the order of the addresses is lost, but not which imports there are
  refine ⟨is, is', his, his', Ascending.ofList_congr fun i => ?_⟩
  rw [mem_of_mapM his, mem_of_mapM his']
  constructor
  · rintro ⟨d', hd', hi⟩
    obtain ⟨d, hd, rfl⟩ := (h.dataTypes d').mp hd'
    obtain ⟨j, hj, hj'⟩ := hsame d hd
    cases hi.symm.trans hj'
    exact ⟨d, hd, hj⟩
  · rintro ⟨d, hd, hi⟩
    obtain ⟨j, hj, hj'⟩ := hsame d hd
    cases hi.symm.trans hj
    exact ⟨f d, (h.dataTypes _).mpr ⟨d, hd, rfl⟩, hj'⟩

variable (hw : WellKnown.Renamed g f w w') (rules : List Rule)
include hw

private theorem bindParameters? {c c' : Contract} (hc : c'.qualifiedName = c.qualifiedName)
    {m m' : ContractMethod} (hm : m'.wireName = m.wireName) {ps ps' : List Parameter}
    (hps : List.Forall₂ (RenamedParameter g f) ps ps') {r r' : References}
    (hr : References.Renamed g f r r') :
    Both (Agree (RenamedResult g f))
      (bindParametersBy? g (HubBindings.renderAt? g w rules) c m r ps)
      (bindParametersBy? g' (HubBindings.renderAt? g' w' rules) c' m' r' ps') := by
  induction hps generalizing r r' with
  | nil => exact .some (.ok ⟨rfl, hr⟩)
  | cons hp _ ih =>
    refine .bind (t.renderAt? hw rules .argument hp.type) fun o o' ho => ?_
    cases ho with
    | error e => exact .some (by simp only [typeReport, hc, hm, hp.name]; exact .error _)
    | @ok a a' ha =>
      refine .bind (t.display? hp.type) fun d d' hd => ?_
      refine .bind (ih (hr.union ha.2)) fun o o' ho => ?_
      cases ho with
      | error e => exact .some (.error e)
      | @ok q q' hq =>
        obtain ⟨bound, all⟩ := q
        obtain ⟨bound', all'⟩ := q'
        obtain ⟨rfl, hall⟩ := hq
        exact .some (.ok ⟨by rw [hp.name, ha.1, hd], hall⟩)

theorem bindMethod? {c c' : Contract} (hc : Contract.Renamed g f c c') {m m' : ContractMethod}
    (hm : ContractMethod.Renamed g f m m') :
    Both (Agree (RenamedResult g f)) (bindMethod? g w rules c m)
      (bindMethod? g' w' rules c' m') := by
  have hwire : List.Forall₂ (RenamedParameter g f) (wireParameters w m) (wireParameters w' m') :=
    forall₂_filter hm.parameters fun p p' hp => by rw [t.isCancellationToken hw hp.type]
  unfold Binding.bindMethod? bindMethodBy?
  rw [hc.role, hm.shape]
  refine .bind (t.violation? hw hm.returns c.role m.call.shape) fun o o' ho => ?_
  subst ho
  cases o with
  | some message =>
    exact .some (by simp only [shapeReport, hc.qualifiedName, hm.wireName]; exact .error _)
  | none =>
    refine .bind (t.bindParameters? hw rules hc.qualifiedName hm.wireName hwire .empty)
      fun o o' ho => ?_
    cases ho with
    | error d => exact .some (.error d)
    | @ok q q' hq =>
      refine .bind (t.renderAt? hw rules (returnPosition c.role) hm.returns) fun o o' ho => ?_
      cases ho with
      | error e =>
        exact .some (by simp only [typeReport, hc.qualifiedName, hm.wireName]; exact .error _)
      | @ok a a' ha =>
        refine .bind (t.display? hm.returns) fun d d' hd => .some (.ok ⟨?_, hq.2.union ha.2⟩)
        simp only [hm.localName, hm.wireName, hq.1, ha.1, hd]

theorem bind? {c c' : Contract} (hc : Contract.Renamed g f c c') :
    Both Eq (bind? g w rules c) (bind? g' w' rules c') := by
  refine .bind (.mapM hc.methods fun _ _ hm => t.bindMethod? hw rules hc hm) fun os os' hos => ?_
  have hkept := kept_renamed hos
  have hreferences := references_renamed hkept
  refine .bind (t.imports hreferences) fun is is' his => .some ?_
  rw [hc.name, hc.nameSpace, hc.qualifiedName, hc.role, his, hreferences.wrappers,
    reports_renamed hos, map_eq_map_of_forall₂ (hkept.imp fun _ _ hq => hq.1.symm)]

theorem bindAll? {cs cs' : List Contract} (h : List.Forall₂ (Contract.Renamed g f) cs cs') :
    Both Eq (bindAll? g w rules cs) (bindAll? g' w' rules cs') := by
  refine .bind (.mapM h fun _ _ hc => t.bind? hw rules hc) fun bound bound' hbound => .some ?_
  rw [List.forall₂_eq_eq_eq] at hbound
  rw [hbound]

end TypeGraph.Embedding

/-! ## Runs -/

namespace TypeGraph.Translation

variable (t : Translation g g' f k) (hw : WellKnown.Renamed g f w w')
include t hw

theorem discoverRole? (scope : Scope) (style : NamingStyle) (role : Role) :
    Both (fun o o' => List.Forall₂ (Contract.Renamed g f) o.1 o'.1 ∧ o'.2 = o.2)
      (Contract.discoverRole? g w scope style role)
      (Contract.discoverRole? g' w' scope style role) := by
  have hgroups : List.Forall₂ (fun e e' => RenamedGroup g f e e' ∧ e.2 ≠ [])
      (Contract.candidates g w scope role) (Contract.candidates g' w' scope role) :=
    forall₂_imp_of_mem (t.embedding.groupByName (t.embedding.marked hw role (t.declaredIn scope)))
      fun e he _ _ h => ⟨h, (Contract.groupByName_grouped g _).nonempty e he⟩
  exact .bind (t.embedding.ofGroups hw style role hgroups) fun _ _ hfound => .some hfound

theorem bindings? (x : Generator) : Both Eq (x.bindings? g w) (x.bindings? g' w') := by
  have hrole := t.discoverRole? hw (Generator.scope x.settings) x.settings.methodStyle
  have hrun : Both (fun d d' => List.Forall₂ (Contract.Renamed g f) d.hubs d'.hubs ∧
        List.Forall₂ (Contract.Renamed g f) d.receivers d'.receivers ∧
        d'.diagnostics = d.diagnostics)
      (Discovery.run? g w (Generator.scope x.settings) x.settings.methodStyle)
      (Discovery.run? g' w' (Generator.scope x.settings) x.settings.methodStyle) :=
    .bind (hrole .hub) fun _ _ hh => .bind (hrole .receiver) fun _ _ hr =>
      .some ⟨hh.1, hr.1, by rw [hh.2, hr.2]⟩
  refine .bind hrun fun d d' hd => ?_
  refine .bind (t.embedding.bindAll? hw x.allRules hd.1) fun hubs hubs' hhubs => ?_
  refine .bind (t.embedding.bindAll? hw x.allRules hd.2.1) fun receivers receivers' hreceivers => ?_
  refine .some ?_
  rw [hhubs, hreceivers, hd.2.2]

omit hw in
theorem prepare (settings : Settings) :
    Agree (WellKnown.Renamed g f) (Generator.prepare settings g)
      (Generator.prepare settings g') := by
  have hmarker : ∀ name, Agree (g.Renamed f) (WellKnown.marker g name)
      (WellKnown.marker g' name) := by
    intro name
    have hlookup := t.lookup? name
    unfold WellKnown.marker
    generalize g.lookup name = found at hlookup ⊢
    generalize g'.lookup name = found' at hlookup ⊢
    cases hlookup with
    | none => exact .error _
    | some hty => exact .ok hty
  unfold Generator.prepare
  cases settings.validate with
  | error e => exact .error e
  | ok u =>
    change Agree _ (WellKnown.resolve g _) (WellKnown.resolve g' _)
    refine .bind (hmarker _) fun hub hub' hh => ?_
    refine .bind (hmarker _) fun receiver receiver' hr => ?_
    refine .bind (hmarker _) fun data data' hd => ?_
    exact .ok ⟨t.lookup? _, t.lookup? _, t.lookup? _, t.lookup? _, t.lookup? _, hh, hr, hd⟩

omit hw in
/-- A run has a result on both graphs, and it is the same. -/
theorem generate? (x : Generator) : Both Eq (x.generate? g) (x.generate? g') := by
  have hprepare := t.prepare x.settings
  unfold Generator.generate? Generator.generateBy?
  generalize Generator.prepare x.settings g = p at hprepare ⊢
  generalize Generator.prepare x.settings g' = p' at hprepare ⊢
  cases hprepare with
  | error e => exact .some rfl
  | ok hw => exact (t.bindings? hw x).map fun b b' hb => by rw [hb]

end TypeGraph.Translation

namespace Generator

/-- A run depends on a graph only up to its addresses: it ends in the same way on every renaming of
the graph. So types that are constructed on the side do not show, and neither does whether the
program comes from a manifest. -/
theorem generate?_up_to_renaming (hg : g.Reachable) (x : Generator) :
    (∀ {g' f k}, g'.Reachable → Renaming g g' f k →
        ∃ r, x.generate? g = some r ∧ x.generate? g' = some r) ∧
      (∀ {g'}, Internings g g' → x.generate? g' = x.generate? g) ∧
      (∀ {m : Manifest} {g' f k}, m.load = some (.ok g') → Renaming g g' f k →
        x.generate? g' = x.generate? g) := by
  have same : ∀ {g' f k}, g'.Consistent → Renaming g g' f k →
      Both Eq (x.generate? g) (x.generate? g') := fun hg' r =>
    Translation.generate? ⟨r, hg.consistent, hg'⟩ x
  refine ⟨fun hg' r => ?_, fun h => ?_, fun hload r => ?_⟩
  · obtain ⟨v, _, hv, hv', rfl⟩ := same hg'.consistent r
    exact ⟨v, hv, hv'⟩
  · exact (same (h.changes.consistent hg.consistent) (h.renaming hg.consistent)).eq
  · exact (same (Manifest.load_reachable hload).consistent r).eq

/-! ### A program in memory and as a manifest -/

private theorem lookup_of_definitions
    (h : g'.definitions = g.definitions.map fun e => (e.1, f e.2)) (name : String) :
    g'.lookup name = (g.lookup name).map f := by
  rw [TypeGraph.lookup, h, TypeGraph.lookup]
  induction g.definitions with
  | nil => rfl
  | cons e rest ih =>
    rw [List.map_cons, Ascending.lookup_cons_if, Ascending.lookup_cons_if, ih]
    split <;> rfl

/-- The types that the program uses. -/
def usedTypes : List TypeHead :=
  [{ kind := .classType, nameSpace := "TypedSignalR.Client", name := "HubAttribute" },
   { kind := .classType, nameSpace := "TypedSignalR.Client", name := "ReceiverAttribute" },
   { kind := .classType, nameSpace := "Tapper", name := "TranspilationSourceAttribute" },
   { kind := .classType, nameSpace := "System.Threading.Tasks", name := "Task" },
   { kind := .classType, nameSpace := "System.Threading.Tasks", name := "Task", arity := 1 },
   { kind := .structType, nameSpace := "System", name := "Int32" }]

/-- A hub and a receiver in memory. The task of a number is constructed before they are declared. -/
def memoryProgram : TypeGraph :=
  TypeGraph.declareAll
    [{ head := { kind := .interface, nameSpace := "App", name := "IFeed" }
       attributes := [⟨0⟩], methods := [{ name := "Count", returns := ⟨6⟩ }] },
     { head := { kind := .interface, nameSpace := "App", name := "IView" }
       attributes := [⟨1⟩]
       methods := [{ name := "Show", parameters := [⟨"count", ⟨5⟩⟩], returns := ⟨3⟩ }] }]
    ((TypeGraph.declareAll (usedTypes.map fun h => { head := h }) {}).withConstruction ⟨4⟩ [⟨5⟩])

/-- The same program as a manifest, for which types are constructed last. -/
def programManifest : Manifest :=
  { coreLibrary := false
    types := usedTypes.map (fun h =>
        { kind := h.kind, nameSpace := h.nameSpace, name := h.name, typeParameters := h.arity }) ++
      [{ kind := .interface, nameSpace := "App", name := "IFeed"
         attributes := ["TypedSignalR.Client.HubAttribute"]
         methods :=
          [{ name := "Count"
             returns := .generic "System.Threading.Tasks.Task`1" [.named "System.Int32"] }] },
       { kind := .interface, nameSpace := "App", name := "IView"
         attributes := ["TypedSignalR.Client.ReceiverAttribute"]
         methods :=
          [{ name := "Show"
             parameters := [{ name := "count", type := .named "System.Int32" }]
             returns := .named "System.Threading.Tasks.Task" }] }] }

/-- The graph that the manifest describes. -/
def loadedProgram : TypeGraph := (programManifest.load.bind Except.toOption).getD {}

private theorem load_programManifest : programManifest.load = some (.ok loadedProgram) :=
  Manifest.load_of_isSome (by decide +kernel)

private theorem memoryProgram_reachable : memoryProgram.Reachable := by
  have hused : (TypeGraph.declareAll (usedTypes.map fun h => { head := h }) {}).Reachable :=
    .declareAll .empty (issuedDeclarations_of_heads _ _)
  have htask := hused.withConstruction ⟨4⟩ [⟨5⟩] (by decide +kernel) (by decide +kernel) rfl
  exact htask.declareAll (by decide +kernel)

/-- From addresses in memory to addresses of the manifest. -/
def toLoaded (ty : TypeId) : TypeId := ⟨[0, 1, 2, 3, 4, 5, 8, 6, 7].getD ty.index 0⟩

private theorem memoryProgram_renaming : Renaming memoryProgram loadedProgram toLoaded id := by
  have addresses : ∀ i < memoryProgram.types.size, loadedProgram.Issued (toLoaded ⟨i⟩) ∧
      ∀ j < memoryProgram.types.size, toLoaded ⟨i⟩ = toLoaded ⟨j⟩ → i = j := by decide +kernel
  have texts : ∀ i < memoryProgram.types.size,
      loadedProgram.name? (toLoaded ⟨i⟩) = memoryProgram.name? ⟨i⟩ ∧
      loadedProgram.nameSpace? (toLoaded ⟨i⟩) = memoryProgram.nameSpace? ⟨i⟩ ∧
      loadedProgram.metadataName? (toLoaded ⟨i⟩) = memoryProgram.metadataName? ⟨i⟩ ∧
      loadedProgram.display? (toLoaded ⟨i⟩) = memoryProgram.display? ⟨i⟩ := by decide +kernel
  have forms : ∀ i < memoryProgram.types.size,
      loadedProgram.kind? (toLoaded ⟨i⟩) = memoryProgram.kind? ⟨i⟩ ∧
      loadedProgram.arity? (toLoaded ⟨i⟩) = memoryProgram.arity? ⟨i⟩ ∧
      loadedProgram.definition? (toLoaded ⟨i⟩) = (memoryProgram.definition? ⟨i⟩).map toLoaded ∧
      loadedProgram.arguments? (toLoaded ⟨i⟩) =
        (memoryProgram.arguments? ⟨i⟩).map (·.map toLoaded) ∧
      loadedProgram.element? (toLoaded ⟨i⟩) =
        (memoryProgram.element? ⟨i⟩).map (·.map toLoaded) := by
    decide +kernel
  have members : ∀ i < memoryProgram.types.size,
      loadedProgram.attributes? (toLoaded ⟨i⟩) =
        (memoryProgram.attributes? ⟨i⟩).map (·.map toLoaded) ∧
      loadedProgram.bases? (toLoaded ⟨i⟩) = (memoryProgram.bases? ⟨i⟩).map (·.map toLoaded) ∧
      loadedProgram.methods? (toLoaded ⟨i⟩) = (memoryProgram.methods? ⟨i⟩).map (·.map id) := by
    decide +kernel
  have signatures : ∀ i < memoryProgram.methods.size, loadedProgram.HasMethod ⟨i⟩ ∧
      (loadedProgram.method? ⟨i⟩).map (·.name) = (memoryProgram.method? ⟨i⟩).map (·.name) ∧
      (loadedProgram.method? ⟨i⟩).map (·.parameters) = (memoryProgram.method? ⟨i⟩).map (fun x =>
        x.parameters.map fun p => { p with type := toLoaded p.type }) ∧
      (loadedProgram.method? ⟨i⟩).map (·.returns) =
        (memoryProgram.method? ⟨i⟩).map fun x => toLoaded x.returns := by decide +kernel
  have source : loadedProgram.declaredIn .source =
      (memoryProgram.declaredIn .source).map toLoaded := by decide +kernel
  have all : loadedProgram.declared = memoryProgram.declared.map toLoaded := by decide +kernel
  have definitions : loadedProgram.definitions =
      memoryProgram.definitions.map (fun e => (e.1, toLoaded e.2)) := by decide +kernel
  exact
    { issued := fun h => (addresses _ h).1
      hasMethod := fun h => (signatures _ h).1
      injective := fun ha hb e => congrArg TypeId.mk ((addresses _ ha).2 _ hb e)
      injectiveMethods := fun _ _ e => e
      name := fun h => (texts _ h).1
      nameSpace := fun h => (texts _ h).2.1
      metadataName := fun h => (texts _ h).2.2.1
      display := fun h => (texts _ h).2.2.2
      kind := fun h => (forms _ h).1
      arity := fun h => (forms _ h).2.1
      attributes := fun h => (members _ h).1
      bases := fun h => (members _ h).2.1
      methods := fun h => (members _ h).2.2
      definition := fun h => (forms _ h).2.2.1
      arguments := fun h => (forms _ h).2.2.2.1
      element := fun h => (forms _ h).2.2.2.2
      methodName := fun h => (signatures _ h).2.1
      parameters := fun h => (signatures _ h).2.2.1
      returns := fun h => (signatures _ h).2.2.2
      declared := fun scope => by
        cases scope with
        | source => exact source
        | sourceAndReferenced => exact all
      lookup := lookup_of_definitions definitions }

theorem memoryProgram_up_to_renaming :
    memoryProgram.Reachable ∧ loadedProgram.Reachable ∧
      (programManifest.load = some (.ok loadedProgram) ∧ toLoaded ⟨6⟩ = ⟨8⟩ ∧
        Renaming memoryProgram loadedProgram toLoaded id) ∧
      (∃ r, ({} : Generator).generate? memoryProgram = some r ∧
        ({} : Generator).generate? loadedProgram = some r) ∧
      ({} : Generator).generate? (memoryProgram.withArray ⟨6⟩) =
        ({} : Generator).generate? memoryProgram ∧
      ({} : Generator).generate? loadedProgram = ({} : Generator).generate? memoryProgram := by
  have hloaded := Manifest.load_reachable load_programManifest
  have harray : Interning memoryProgram (memoryProgram.withArray ⟨6⟩) :=
    .array (by decide +kernel) (by decide +kernel)
  obtain ⟨hrenamed, hinterned, hmanifest⟩ := generate?_up_to_renaming memoryProgram_reachable {}
  exact ⟨memoryProgram_reachable, hloaded,
    ⟨load_programManifest, rfl, memoryProgram_renaming⟩,
    hrenamed hloaded memoryProgram_renaming, hinterned (.single harray),
    hmanifest load_programManifest memoryProgram_renaming⟩

end Generator

end HubBindings
