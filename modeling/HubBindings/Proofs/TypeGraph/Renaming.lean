import HubBindings.Proofs.TypeGraph.Answers
import HubBindings.TypeGraph.Hierarchy
import Mathlib.Data.Finset.Card

/-!
Two graphs with the same program under different addresses.

* `Renaming g g' f k`: the maps `f` of types and `k` of methods respect every question that a graph
  answers about itself;
* `Embedding g g' f k`: they respect the questions about the types of `g`, and `g'` may declare more
  types under other names. A renaming of consistent graphs is an embedding
  (`Translation.embedding`);
* what is worked out from the answers is then renamed along with them, up to the methods of an
  interface with those it inherits (`Embedding.flattened?`).

All these statements say that both graphs have an answer. A graph is a renaming of itself
(`Renaming.refl`), so they also tell when one graph has an answer.
-/

namespace HubBindings.TypeGraph

open Sequencing

variable {g g' : TypeGraph} {f : TypeId → TypeId} {k : MethodId → MethodId}

/-- Maps of the addresses of one graph to those of another that respect every question. -/
structure Renaming (g g' : TypeGraph) (f : TypeId → TypeId) (k : MethodId → MethodId) : Prop where
  issued : ∀ {ty}, g.Issued ty → g'.Issued (f ty)
  hasMethod : ∀ {m}, g.HasMethod m → g'.HasMethod (k m)
  injective : ∀ {a b}, g.Issued a → g.Issued b → f a = f b → a = b
  injectiveMethods : ∀ {a b}, g.HasMethod a → g.HasMethod b → k a = k b → a = b
  name : ∀ {ty}, g.Issued ty → g'.name? (f ty) = g.name? ty
  nameSpace : ∀ {ty}, g.Issued ty → g'.nameSpace? (f ty) = g.nameSpace? ty
  metadataName : ∀ {ty}, g.Issued ty → g'.metadataName? (f ty) = g.metadataName? ty
  display : ∀ {ty}, g.Issued ty → g'.display? (f ty) = g.display? ty
  kind : ∀ {ty}, g.Issued ty → g'.kind? (f ty) = g.kind? ty
  arity : ∀ {ty}, g.Issued ty → g'.arity? (f ty) = g.arity? ty
  attributes : ∀ {ty}, g.Issued ty → g'.attributes? (f ty) = (g.attributes? ty).map (·.map f)
  bases : ∀ {ty}, g.Issued ty → g'.bases? (f ty) = (g.bases? ty).map (·.map f)
  methods : ∀ {ty}, g.Issued ty → g'.methods? (f ty) = (g.methods? ty).map (·.map k)
  definition : ∀ {ty}, g.Issued ty → g'.definition? (f ty) = (g.definition? ty).map f
  arguments : ∀ {ty}, g.Issued ty → g'.arguments? (f ty) = (g.arguments? ty).map (·.map f)
  element : ∀ {ty}, g.Issued ty → g'.element? (f ty) = (g.element? ty).map (·.map f)
  methodName : ∀ {m}, g.HasMethod m →
    (g'.method? (k m)).map (·.name) = (g.method? m).map (·.name)
  parameters : ∀ {m}, g.HasMethod m →
    (g'.method? (k m)).map (·.parameters) =
      (g.method? m).map fun x => x.parameters.map fun p => { p with type := f p.type }
  returns : ∀ {m}, g.HasMethod m →
    (g'.method? (k m)).map (·.returns) = (g.method? m).map fun x => f x.returns
  /-- Declarations stand in the same order, and in the same scopes. -/
  declared : ∀ scope, g'.declaredIn scope = (g.declaredIn scope).map f
  lookup : ∀ name, g'.lookup name = (g.lookup name).map f

theorem Renaming.refl (g : TypeGraph) : Renaming g g id id where
  issued h := h
  hasMethod h := h
  injective _ _ h := h
  injectiveMethods _ _ h := h
  name _ := rfl
  nameSpace _ := rfl
  metadataName _ := rfl
  display _ := rfl
  kind _ := rfl
  arity _ := rfl
  attributes _ := by simp
  bases _ := by simp
  methods _ := by simp
  definition _ := by simp
  arguments _ := by simp
  element _ := by simp
  methodName _ := rfl
  parameters _ := by simp
  returns _ := rfl
  declared _ := by simp
  lookup _ := by simp

/-- A type and the one it is renamed to. -/
def Renamed (g : TypeGraph) (f : TypeId → TypeId) (ty ty' : TypeId) : Prop :=
  g.Issued ty ∧ f ty = ty'

/-- A method and the one it is renamed to. -/
def RenamedMethod (g : TypeGraph) (k : MethodId → MethodId) (m m' : MethodId) : Prop :=
  g.HasMethod m ∧ k m = m'

/-- Parts of a type and of the type it is renamed to. -/
structure RenamedPart (g : TypeGraph) (f : TypeId → TypeId) (ty ty' a a' : TypeId) : Prop where
  renamed : Renamed g f a a'
  lt : a.index < ty.index
  lt' : a'.index < ty'.index

/-- A parameter keeps its name, and its type is renamed. -/
structure RenamedParameter (g : TypeGraph) (f : TypeId → TypeId) (p p' : Parameter) : Prop where
  name : p'.name = p.name
  type : Renamed g f p.type p'.type

/-- A method keeps the names in its signature, and the types are renamed. -/
structure RenamedSignature (g : TypeGraph) (f : TypeId → TypeId) (x x' : Method) : Prop where
  name : x'.name = x.name
  parameters : List.Forall₂ (RenamedParameter g f) x.parameters x'.parameters
  returns : Renamed g f x.returns x'.returns

/-- A renaming of one consistent graph into another. -/
structure Translation (g g' : TypeGraph) (f : TypeId → TypeId) (k : MethodId → MethodId) : Prop
    extends Renaming g g' f k where
  source : Consistent g
  target : Consistent g'

theorem Translation.refl (hg : Consistent g) : Translation g g id id := ⟨.refl g, hg, hg⟩

/-- A qualified name is made up of the namespace and the simple name. -/
theorem qualifiedName?_eq (g : TypeGraph) (ty : TypeId) :
    g.qualifiedName? ty = (do
      let nameSpace ← g.nameSpace? ty
      let name ← g.name? ty
      return if nameSpace = "" then name else nameSpace ++ "." ++ name) := by
  unfold qualifiedName? nameSpace? name?
  cases g.peel? ty with
  | none => rfl
  | some p =>
    obtain ⟨root, rank⟩ := p
    cases hh : g.head? root with
    | none => simp [hh]
    | some h => simp [hh, TypeHead.qualifiedName]

/-- The types of a graph stand for types of another graph: both graphs answer every question about
them, and the answers correspond. The other graph may declare more types, under other names. -/
structure Embedding (g g' : TypeGraph) (f : TypeId → TypeId) (k : MethodId → MethodId) : Prop where
  issued : ∀ {ty}, g.Issued ty → g'.Issued (f ty)
  biUnique : Relator.BiUnique (Renamed g f)
  biUnique_methods : Relator.BiUnique (RenamedMethod g k)
  name? : ∀ {ty ty'}, Renamed g f ty ty' → Both Eq (g.name? ty) (g'.name? ty')
  nameSpace? : ∀ {ty ty'}, Renamed g f ty ty' → Both Eq (g.nameSpace? ty) (g'.nameSpace? ty')
  metadataName? : ∀ {ty ty'}, Renamed g f ty ty' →
    Both Eq (g.metadataName? ty) (g'.metadataName? ty')
  display? : ∀ {ty ty'}, Renamed g f ty ty' → Both Eq (g.display? ty) (g'.display? ty')
  kind? : ∀ {ty ty'}, Renamed g f ty ty' → Both Eq (g.kind? ty) (g'.kind? ty')
  arity? : ∀ {ty ty'}, Renamed g f ty ty' → Both Eq (g.arity? ty) (g'.arity? ty')
  definition? : ∀ {ty ty'}, Renamed g f ty ty' →
    Both (Renamed g f) (g.definition? ty) (g'.definition? ty')
  attributes? : ∀ {ty ty'}, Renamed g f ty ty' →
    Both (List.Forall₂ (Renamed g f)) (g.attributes? ty) (g'.attributes? ty')
  bases? : ∀ {ty ty'}, Renamed g f ty ty' →
    Both (List.Forall₂ (Renamed g f)) (g.bases? ty) (g'.bases? ty')
  methods? : ∀ {ty ty'}, Renamed g f ty ty' →
    Both (List.Forall₂ (RenamedMethod g k)) (g.methods? ty) (g'.methods? ty')
  arguments? : ∀ {ty ty'}, Renamed g f ty ty' →
    Both (List.Forall₂ (RenamedPart g f ty ty')) (g.arguments? ty) (g'.arguments? ty')
  element? : ∀ {ty ty'}, Renamed g f ty ty' →
    Both (Option.Rel (RenamedPart g f ty ty')) (g.element? ty) (g'.element? ty')
  method? : ∀ {m m'}, RenamedMethod g k m m' →
    Both (RenamedSignature g f) (g.method? m) (g'.method? m')
  /-- No further type is declared under the name of a type that was there. -/
  declaredAs : ∀ {ty name}, g.Issued ty → g.metadataName? ty = some name →
    List.Forall₂ (Renamed g f) (g.declaredAs name) (g'.declaredAs name)

namespace Translation

variable (t : Translation g g' f k)
include t

theorem arguments? {ty ty' : TypeId} (h : Renamed g f ty ty') :
    Both (List.Forall₂ (RenamedPart g f ty ty')) (g.arguments? ty) (g'.arguments? ty') := by
  obtain ⟨as, has, hlt⟩ := arguments?_yields t.source h.1
  have has' : g'.arguments? ty' = some (as.map f) := by
    rw [← h.2, t.arguments h.1, has, Option.map_some]
  obtain ⟨as', has'', hlt'⟩ := arguments?_yields t.target (h.2 ▸ t.issued h.1)
  cases has'.symm.trans has''
  refine ⟨as, as.map f, has, has', forall₂_map_self fun a ha => ?_⟩
  exact ⟨⟨h.1.of_lt (hlt a ha), rfl⟩, hlt a ha, hlt' _ (List.mem_map_of_mem ha)⟩

theorem element? {ty ty' : TypeId} (h : Renamed g f ty ty') :
    Both (Option.Rel (RenamedPart g f ty ty')) (g.element? ty) (g'.element? ty') := by
  obtain ⟨o, ho, hlt⟩ := element?_yields t.source h.1
  have ho' : g'.element? ty' = some (o.map f) := by
    rw [← h.2, t.element h.1, ho, Option.map_some]
  obtain ⟨o', ho'', hlt'⟩ := element?_yields t.target (h.2 ▸ t.issued h.1)
  cases ho'.symm.trans ho''
  refine ⟨o, o.map f, ho, ho', ?_⟩
  cases o with
  | none => exact .none
  | some e => exact .some ⟨⟨h.1.of_lt (hlt e rfl), rfl⟩, hlt e rfl, hlt' _ rfl⟩

theorem method? {m m' : MethodId} (h : RenamedMethod g k m m') :
    Both (RenamedSignature g f) (g.method? m) (g'.method? m') := by
  obtain ⟨hm, rfl⟩ := h
  obtain ⟨x, hx⟩ := hasMethod_iff.mp hm
  obtain ⟨x', hx'⟩ := hasMethod_iff.mp (t.hasMethod hm)
  obtain ⟨hreturns, hparameters⟩ := t.source.signatures hx
  have ename := t.methodName hm
  have eparameters := t.parameters hm
  have ereturns := t.returns hm
  rw [hx, hx', Option.map_some, Option.map_some, Option.some.injEq] at ename eparameters ereturns
  refine ⟨x, x', hx, hx', ename, ?_, hreturns, ereturns.symm⟩
  rw [eparameters]
  exact forall₂_map_self fun p hp => ⟨rfl, hparameters p hp, rfl⟩

theorem declaredIn (scope : Scope) :
    List.Forall₂ (Renamed g f) (g.declaredIn scope) (g'.declaredIn scope) := by
  rw [t.declared]
  exact forall₂_map_self fun ty hty => ⟨t.source.issued_of_declaredIn hty, rfl⟩

theorem lookup? (name : String) : Option.Rel (Renamed g f) (g.lookup name) (g'.lookup name) := by
  rw [t.lookup]
  cases hl : g.lookup name with
  | none => exact .none
  | some ty => exact .some ⟨t.source.issued_of_lookup hl, rfl⟩

/-- A renaming respects the questions about every type. -/
theorem embedding : Embedding g g' f k where
  issued := t.issued
  biUnique := ⟨fun _ _ _ h h' => t.injective h.1 h'.1 (h.2.trans h'.2.symm),
    fun _ _ _ h h' => h.2.symm.trans h'.2⟩
  biUnique_methods := ⟨fun _ _ _ h h' => t.injectiveMethods h.1 h'.1 (h.2.trans h'.2.symm),
    fun _ _ _ h h' => h.2.symm.trans h'.2⟩
  name? h := .of_eq (name?_answers t.source h.1) (h.2 ▸ t.name h.1)
  nameSpace? h := .of_eq (nameSpace?_answers t.source h.1) (h.2 ▸ t.nameSpace h.1)
  metadataName? h := .of_eq (metadataName?_answers t.source h.1) (h.2 ▸ t.metadataName h.1)
  display? h := .of_eq (display?_answers t.source h.1) (h.2 ▸ t.display h.1)
  kind? h := .of_eq (kind?_answers t.source h.1) (h.2 ▸ t.kind h.1)
  arity? h := .of_eq (arity?_answers t.source h.1) (h.2 ▸ t.arity h.1)
  definition? h :=
    .of_map (definition?_yields t.source h.1) (h.2 ▸ t.definition h.1) fun _ hd => ⟨hd, rfl⟩
  attributes? h := .of_map (attributes?_yields t.source h.1) (h.2 ▸ t.attributes h.1) fun _ has =>
    forall₂_map_self fun a ha => ⟨has a ha, rfl⟩
  bases? h := .of_map (bases?_yields t.source h.1) (h.2 ▸ t.bases h.1) fun _ hbs =>
    forall₂_map_self fun b hb => ⟨hbs b hb, rfl⟩
  methods? h := .of_map (methods?_yields t.source h.1) (h.2 ▸ t.methods h.1) fun _ hms =>
    forall₂_map_self fun m hm => ⟨hms m hm, rfl⟩
  arguments? := t.arguments?
  element? := t.element?
  method? := t.method?
  declaredAs _ _ := forall₂_filter (t.declaredIn .sourceAndReferenced) fun ty ty' h => by
    rw [← h.2, t.metadataName h.1]

end Translation

namespace Embedding

variable (t : Embedding g g' f k)
include t

private theorem eq_iff {a b a' b' : TypeId} (ha : Renamed g f a a') (hb : Renamed g f b b') :
    a = b ↔ a' = b' := Relator.rel_eq t.biUnique ha hb

/-- Whether a type is the one that a name leads to does not change. -/
theorem eq_some_iff {o o' : Option TypeId} {ty ty' : TypeId} (ho : Option.Rel (Renamed g f) o o')
    (h : Renamed g f ty ty') : o = some ty ↔ o' = some ty' := by
  cases ho with
  | none => simp
  | some hd => simpa using t.eq_iff hd h

private theorem contains_eq {as as' : List TypeId} {ty ty' : TypeId}
    (has : List.Forall₂ (Renamed g f) as as') (h : Renamed g f ty ty') :
    as.contains ty = as'.contains ty' := by
  rw [Bool.eq_iff_iff, List.contains_iff_mem, List.contains_iff_mem]
  exact List.rel_mem t.biUnique h has

private theorem contains_method_eq {ms ms' : List MethodId} {m m' : MethodId}
    (hms : List.Forall₂ (RenamedMethod g k) ms ms') (h : RenamedMethod g k m m') :
    ms.contains m = ms'.contains m' := by
  rw [Bool.eq_iff_iff, List.contains_iff_mem, List.contains_iff_mem]
  exact List.rel_mem t.biUnique_methods h hms

/-! ## Questions about a type -/

section Questions

variable {ty ty' : TypeId} (h : Renamed g f ty ty')
include h

theorem firstArgument? : Both (Option.Rel (RenamedPart g f ty ty')) (g.firstArgument? ty)
    (g'.firstArgument? ty') :=
  (t.arguments? h).map fun _ _ has => rel_head?_of_forall₂ has

theorem qualifiedName? : Both Eq (g.qualifiedName? ty) (g'.qualifiedName? ty') := by
  rw [qualifiedName?_eq, qualifiedName?_eq]
  refine .bind (t.nameSpace? h) fun ns ns' hns => .bind (t.name? h) fun n n' hn => .some ?_
  rw [hns, hn]

theorem isGeneric? : Both Eq (g.isGeneric? ty) (g'.isGeneric? ty') := by
  refine .bind (t.arity? h) fun n n' hn => .bind (t.arguments? h) fun as as' has => .some ?_
  cases has with
  | nil => rw [hn]
  | cons _ _ => rw [hn]; rfl

theorem isConstructedFrom? {d d' : Option TypeId} (hd : Option.Rel (Renamed g f) d d') :
    Both Eq (g.isConstructedFrom? ty d) (g'.isConstructedFrom? ty' d') := by
  cases hd with
  | none => exact .some rfl
  | some hd =>
    refine .bind (t.arguments? h) fun as as' has => .bind (t.definition? h) fun e e' he => .some ?_
    rw [decide_eq_decide.mpr (t.eq_iff he hd)]
    cases has <;> rfl

end Questions

/-! ## Declarations -/

theorem fragments? {ty ty' : TypeId} (h : Renamed g f ty ty') :
    Both (List.Forall₂ (Renamed g f)) (g.fragments? ty) (g'.fragments? ty') := by
  refine .bind (t.definition? h) fun d d' hd => ?_
  refine .bind (.mono (t.metadataName? hd) fun n n' hn hn' e => And.intro e hn) fun n n' hn => ?_
  obtain ⟨rfl, hname⟩ := hn
  have hall := t.declaredAs hd.1 hname
  cases hs : g.declaredAs n with
  | nil =>
    rw [hs, List.forall₂_nil_left_iff] at hall
    rw [hall]
    exact .some (.cons hd .nil)
  | cons first rest =>
    rw [hs] at hall
    obtain ⟨first', rest', hfirst, hrest, e⟩ := List.forall₂_cons_left_iff.mp hall
    rw [e]
    exact .some (.cons hfirst hrest)

theorem hasAttribute? {ty ty' marker marker' : TypeId} (h : Renamed g f ty ty')
    (hm : Renamed g f marker marker') :
    Both Eq (g.hasAttribute? ty marker) (g'.hasAttribute? ty' marker') := by
  refine (t.fragments? h).map fun fs fs' hfs => any_eq_any_of_forall₂ hfs fun x x' hx => ?_
  obtain ⟨as, as', has, has', hall⟩ := t.attributes? hx
  rw [has, has', Option.any_some, Option.any_some, t.contains_eq hall hm]

/-! ## Methods -/

theorem isTaken {ms ms' : List MethodId} (hms : List.Forall₂ (RenamedMethod g k) ms ms')
    (name : String) : g.isTaken ms name = g'.isTaken ms' name := by
  refine any_eq_any_of_forall₂ hms fun m m' hm => ?_
  obtain ⟨x, x', hx, hx', hsig⟩ := t.method? hm
  rw [hx, hx', Option.any_some, Option.any_some, hsig.name]

theorem isHidden {ms ms' : List MethodId} (hms : List.Forall₂ (RenamedMethod g k) ms ms')
    {m m' : MethodId} (hm : RenamedMethod g k m m') : g.isHidden ms m = g'.isHidden ms' m' := by
  obtain ⟨x, x', hx, hx', hsig⟩ := t.method? hm
  rw [TypeGraph.isHidden, TypeGraph.isHidden, hx, hx', Option.any_some, Option.any_some, hsig.name,
    t.isTaken hms]

theorem collect {v v' : Visit} (hv : List.Forall₂ (RenamedMethod g k) v.methods v'.methods)
    {own own' : List MethodId} (hown : List.Forall₂ (RenamedMethod g k) own own') :
    List.Forall₂ (RenamedMethod g k) (v.collect g own).methods (v'.collect g' own').methods := by
  have hvisible : List.Forall₂ (RenamedMethod g k) (own.filter fun m => !g.isHidden v.methods m)
      (own'.filter fun m => !g'.isHidden v'.methods m) :=
    forall₂_filter hown fun m m' hm => by rw [t.isHidden hv hm]
  refine List.rel_foldl (fun ms ms' hms m m' hm => ?_) hv hvisible
  rw [t.contains_method_eq hms hm]
  split
  · exact hms
  · exact List.rel_append hms (.cons hm .nil)

end Embedding

/-! ## Inherited methods -/

/-- The number of types with a name that is not entered. -/
def pending (g : TypeGraph) (entered : List String) : Nat :=
  ((Finset.range g.typeCount).filter fun i => ∃ n, g.metadataName? ⟨i⟩ = some n ∧ n ∉ entered).card

private theorem pending_le (g : TypeGraph) (entered : List String) :
    g.pending entered ≤ g.typeCount := by
  have h := Finset.card_filter_le (Finset.range g.typeCount) fun i =>
    ∃ n, g.metadataName? ⟨i⟩ = some n ∧ n ∉ entered
  rwa [Finset.card_range] at h

private theorem pending_mono {entered entered' : List String} (h : entered ⊆ entered') :
    g.pending entered' ≤ g.pending entered := by
  refine Finset.card_le_card fun i hi => ?_
  obtain ⟨hrange, n, hn, hnot⟩ := Finset.mem_filter.mp hi
  exact Finset.mem_filter.mpr ⟨hrange, n, hn, fun hmem => hnot (h hmem)⟩

/-- Entering an interface leaves fewer types to enter. -/
theorem pending_cons_lt {entered : List String} {ty : TypeId} {n : String} (hty : g.Issued ty)
    (hn : g.metadataName? ty = some n) (hnot : n ∉ entered) :
    g.pending (n :: entered) < g.pending entered := by
  refine Finset.card_lt_card (Finset.ssubset_iff_subset_ne.mpr ⟨fun i hi => ?_, fun e => ?_⟩)
  · obtain ⟨hrange, n', hn', hnot'⟩ := Finset.mem_filter.mp hi
    exact Finset.mem_filter.mpr ⟨hrange, n', hn', fun hmem => hnot' (List.mem_cons_of_mem _ hmem)⟩
  · -- the type that is entered is counted before and not after
    have hbefore : ty.index ∈ (Finset.range g.typeCount).filter fun i =>
        ∃ n, g.metadataName? ⟨i⟩ = some n ∧ n ∉ entered :=
      Finset.mem_filter.mpr ⟨Finset.mem_range.mpr hty, n, hn, hnot⟩
    rw [← e] at hbefore
    obtain ⟨_, n', hn', hnot'⟩ := Finset.mem_filter.mp hbefore
    cases hn.symm.trans hn'
    exact hnot' List.mem_cons_self

/-- Two visits that entered the same interfaces, beyond those of an earlier list, and collected the
same methods. -/
structure SameVisit (g : TypeGraph) (k : MethodId → MethodId) (earlier : List String)
    (v v' : Visit) : Prop where
  entered : v'.entered = v.entered
  earlier : earlier ⊆ v.entered
  methods : List.Forall₂ (RenamedMethod g k) v.methods v'.methods

namespace Embedding

variable (t : Embedding g g' f k)
include t

/-- There is room for a visit if there is more of it than there are types left to enter. -/
theorem enter {room room' : Nat} {fragments fragments' : List TypeId}
    (hfragments : List.Forall₂ (Renamed g f) fragments fragments') {v v' : Visit}
    (hentered : v'.entered = v.entered)
    (hmethods : List.Forall₂ (RenamedMethod g k) v.methods v'.methods)
    (hroom : g.pending v.entered < room) (hroom' : g'.pending v.entered < room') :
    Both (SameVisit g k v.entered) (g.enter room fragments v) (g'.enter room' fragments' v') := by
  induction room generalizing room' fragments fragments' v v' with
  | zero => exact absurd hroom (Nat.not_lt_zero _)
  | succ room ih =>
    obtain ⟨room', rfl⟩ := Nat.exists_eq_succ_of_ne_zero (Nat.ne_zero_of_lt hroom')
    refine .bind (.mapM hfragments fun _ _ h => t.methods? h) fun own own' hown => ?_
    refine .bind (.mapM hfragments fun _ _ h => t.bases? h) fun bases bases' hbases => ?_
    refine .foldlM (List.rel_flatten hbases) (fun u u' hu base base' hbase => ?_)
      ⟨hentered, List.Subset.refl _, t.collect hmethods (List.rel_flatten hown)⟩
    refine .bind (.mono (t.metadataName? hbase) fun n n' hn hn' e => And.intro e (And.intro hn hn'))
      fun n n' hn => ?_
    obtain ⟨rfl, hn, hn'⟩ := hn
    rw [hu.entered]
    split
    · exact .some hu
    · rename_i hnot
      have hfresh : n ∉ u.entered := fun hmem => hnot (List.contains_iff_mem.mpr hmem)
      have hsame : ({ u' with entered := n :: u.entered } : Visit).entered =
          ({ u with entered := n :: u.entered } : Visit).entered := rfl
      refine .bind (t.fragments? hbase) fun fs fs' hfs => ?_
      refine (ih hfs hsame hu.methods ?_ ?_).mono fun _ _ _ _ h => ?_
      · have hlt := pending_cons_lt hbase.1 hn hfresh
        have hle := pending_mono (g := g) hu.earlier
        simp only
        omega
      · have hlt := pending_cons_lt (hbase.2 ▸ t.issued hbase.1) hn' hfresh
        have hle := pending_mono (g := g') hu.earlier
        simp only
        omega
      · exact ⟨h.entered, fun x hx => h.earlier (List.mem_cons_of_mem _ (hu.earlier hx)), h.methods⟩

theorem flattened? {fragments fragments' : List TypeId}
    (h : List.Forall₂ (Renamed g f) fragments fragments') :
    Both (List.Forall₂ (RenamedMethod g k)) (g.flattened? fragments)
      (g'.flattened? fragments') := by
  have hhead : List.Forall₂ (Renamed g f) fragments.head?.toList fragments'.head?.toList := by
    cases h with
    | nil => exact .nil
    | cons hfirst _ => exact .cons hfirst .nil
  refine .bind (.mapM hhead fun _ _ h => t.metadataName? h) fun ns ns' hns => ?_
  rw [List.forall₂_eq_eq_eq] at hns
  subst hns
  exact .bind (t.enter h rfl .nil (Nat.lt_succ_of_le (pending_le g _))
    (Nat.lt_succ_of_le (pending_le g' _))) fun _ _ hv => .some hv.methods

end Embedding

end HubBindings.TypeGraph
