import HubBindings.Proofs.TypeGraph.Renaming
import HubBindings.Proofs.TypeGraph.Representation

/-!
The methods of an interface together with those it inherits.

* `Walks` is the visit of bases as a relation: each base is passed by or entered, and what is
  entered is walked through before the next base. `enter_walks` reads every visit this way;
* `Inherits` is reachability through bases, said without a visit;
* `Walks.sound` and `Walks.covered` are the two halves of what a walk does: it collects nothing that
  is not inherited, and every name of an inherited method is taken when it ends;
* `flattened?_complete` puts them together. It asks that no base is constructed from an array: such
  a base is entered under one name and expanded under another.
-/

namespace HubBindings.TypeGraph

open Sequencing

variable {g : TypeGraph}

/-! ## Members of fragments -/

/-- The ordinary methods of fragments, fragment by fragment. -/
def methodsOf (g : TypeGraph) (fragments : List TypeId) : List MethodId :=
  fragments.flatMap fun f => (g.methods? f).getD []

/-- The bases of fragments, fragment by fragment. -/
def basesOf (g : TypeGraph) (fragments : List TypeId) : List TypeId :=
  fragments.flatMap fun f => (g.bases? f).getD []

/-- Both methods have one name. -/
def SameName (g : TypeGraph) (a b : MethodId) : Prop :=
  ∃ x y, g.method? a = some x ∧ g.method? b = some y ∧ x.name = y.name

private theorem flatten_of_mapM {α β : Type} {f : α → Option (List β)} {as : List α}
    {bss : List (List β)}
    (h : as.mapM f = some bss) : bss.flatten = as.flatMap fun a => (f a).getD [] := by
  have hall := mapM_eq_some_iff.mp h
  clear h
  induction hall with
  | nil => rfl
  | cons ha _ ih => rw [List.flatten_cons, List.flatMap_cons, ih, ha, Option.getD_some]

theorem mem_methodsOf {fragments : List TypeId} {m : MethodId} :
    m ∈ g.methodsOf fragments ↔ ∃ f ∈ fragments, ∃ ms, g.methods? f = some ms ∧ m ∈ ms := by
  simp only [methodsOf, List.mem_flatMap]
  refine exists_congr fun f => and_congr_right fun _ => ?_
  cases g.methods? f with
  | none => simp
  | some ms => simp

theorem mem_basesOf {fragments : List TypeId} {b : TypeId} :
    b ∈ g.basesOf fragments ↔ ∃ f ∈ fragments, ∃ bs, g.bases? f = some bs ∧ b ∈ bs := by
  simp only [basesOf, List.mem_flatMap]
  refine exists_congr fun f => and_congr_right fun _ => ?_
  cases g.bases? f with
  | none => simp
  | some bs => simp

/-- Ordinary methods are there to be asked for their names. -/
theorem exists_method?_of_methodsOf {fragments : List TypeId} {m : MethodId}
    (h : m ∈ g.methodsOf fragments) : ∃ x, g.method? m = some x := by
  obtain ⟨f, _, ms, hms, hm⟩ := mem_methodsOf.mp h
  obtain ⟨s, _, rfl⟩ := Option.map_eq_some_iff.mp hms
  have hordinary := (List.mem_filter.mp hm).2
  rw [isOrdinary] at hordinary
  cases hx : g.method? m with
  | none => rw [hx] at hordinary; cases hordinary
  | some x => exact ⟨x, rfl⟩

private theorem sameName_self {fragments : List TypeId} {m : MethodId}
    (h : m ∈ g.methodsOf fragments) :
    g.SameName m m := by
  obtain ⟨x, hx⟩ := exists_method?_of_methodsOf h
  exact ⟨x, x, hx, hx, rfl⟩

theorem isHidden_iff {ms : List MethodId} {m : MethodId} :
    g.isHidden ms m = true ↔ ∃ m' ∈ ms, g.SameName m' m := by
  unfold isHidden isTaken SameName
  cases hm : g.method? m with
  | none => simp
  | some y =>
    simp only [Option.any_some, List.any_eq_true]
    refine exists_congr fun m' => and_congr_right fun _ => ?_
    cases hm' : g.method? m' with
    | none => simp
    | some x => simp

/-! ## Collecting -/

/-- Adding elements one by one, each that is not there yet, appends some of them. -/
theorem foldl_append_new {α : Type} [DecidableEq α] (init as : List α) :
    ∃ new, as.foldl (fun xs a => if xs.contains a then xs else xs ++ [a]) init = init ++ new ∧
      new.Sublist as ∧ (∀ a ∈ as, a ∈ init ++ new) ∧ (init.Nodup → (init ++ new).Nodup) ∧
      ((init ++ as).Nodup → new = as) := by
  induction as generalizing init with
  | nil => exact ⟨[], by simp, .slnil, by simp, by simp, by simp⟩
  | cons a as ih =>
    rw [List.foldl_cons]
    by_cases ha : a ∈ init
    · rw [if_pos (List.contains_iff_mem.mpr ha)]
      obtain ⟨new, hnew, hsub, hmem, hnodup, _⟩ := ih init
      refine ⟨new, hnew, hsub.cons a, ?_, hnodup, fun hall => ?_⟩
      · exact List.forall_mem_cons.mpr ⟨List.mem_append_left _ ha, hmem⟩
      · exact absurd rfl ((List.nodup_append.mp hall).2.2 a ha a List.mem_cons_self)
    · rw [if_neg (fun h => ha (List.contains_iff_mem.mp h))]
      obtain ⟨new, hnew, hsub, hmem, hnodup, heq⟩ := ih (init ++ [a])
      have hassoc : ∀ xs : List α, init ++ a :: xs = init ++ [a] ++ xs := by simp
      refine ⟨a :: new, by rw [hnew, hassoc new], hsub.cons_cons a, ?_, ?_, ?_⟩
      · rw [hassoc]
        exact List.forall_mem_cons.mpr ⟨by simp, hmem⟩
      · intro hinit
        rw [hassoc]
        refine hnodup (List.nodup_append.mpr ⟨hinit, List.nodup_singleton a, ?_⟩)
        rintro x hx y hy rfl
        exact ha (List.mem_singleton.mp hy ▸ hx)
      · intro hall
        rw [heq (hassoc as ▸ hall)]

/-- What is collected from an interface: some of its methods in their order, none with a name that
was taken before, and afterwards the names of all of them are taken. -/
theorem Visit.collect_spec (v : Visit) (fragments : List TypeId) :
    (v.collect g (g.methodsOf fragments)).entered = v.entered ∧
      ∃ new, (v.collect g (g.methodsOf fragments)).methods = v.methods ++ new ∧
        new.Sublist (g.methodsOf fragments) ∧
        (∀ b ∈ new, ∀ a ∈ v.methods, ¬ g.SameName a b) ∧
        (∀ m ∈ g.methodsOf fragments, ∃ m' ∈ v.methods ++ new, g.SameName m' m) ∧
        (v.methods.Nodup → (v.methods ++ new).Nodup) := by
  obtain ⟨new, hnew, hsub, hmem, hnodup, _⟩ := foldl_append_new v.methods
    ((g.methodsOf fragments).filter fun m => !g.isHidden v.methods m)
  refine ⟨rfl, new, hnew, hsub.trans List.filter_sublist, ?_, ?_, hnodup⟩
  · intro b hb a ha hname
    have hvisible := (List.mem_filter.mp (hsub.subset hb)).2
    rw [isHidden_iff.mpr ⟨a, ha, hname⟩] at hvisible
    cases hvisible
  · intro m hm
    by_cases hhidden : g.isHidden v.methods m = true
    · obtain ⟨m', hm', hname⟩ := isHidden_iff.mp hhidden
      exact ⟨m', List.mem_append_left _ hm', hname⟩
    · refine ⟨m, hmem m (List.mem_filter.mpr ⟨hm, ?_⟩), sameName_self hm⟩
      simpa using hhidden

/-- The first interface of a visit is collected as a whole. -/
theorem collect_first {entered : List String} {fragments : List TypeId}
    (h : (g.methodsOf fragments).Nodup) :
    (({ entered } : Visit).collect g (g.methodsOf fragments)).methods = g.methodsOf fragments := by
  have hvisible : ((g.methodsOf fragments).filter fun m => !g.isHidden [] m) =
      g.methodsOf fragments := by
    refine List.filter_eq_self.mpr fun m _ => ?_
    cases hm : g.isHidden [] m with
    | false => rfl
    | true =>
      obtain ⟨_, hnone, _⟩ := isHidden_iff.mp hm
      cases hnone
  obtain ⟨new, hnew, _, _, _, heq⟩ := foldl_append_new [] (g.methodsOf fragments)
  rw [heq h] at hnew
  change ((g.methodsOf fragments).filter _).foldl _ [] = _
  rw [hvisible]
  exact hnew

/-! ## Walks -/

/-- A walk through bases. A base whose name was entered before is passed by. Another one is entered:
the methods of its fragments are collected, and their bases are walked through first. -/
inductive Walks (g : TypeGraph) : List TypeId → Visit → Visit → Prop
  | done {u : Visit} : Walks g [] u u
  | pass {b : TypeId} {bs : List TypeId} {n : String} {u u' : Visit} :
      g.metadataName? b = some n → n ∈ u.entered → Walks g bs u u' → Walks g (b :: bs) u u'
  | enter {b : TypeId} {bs fragments : List TypeId} {n : String} {u u₁ u' : Visit} :
      g.metadataName? b = some n → n ∉ u.entered → g.fragments? b = some fragments →
      Walks g (g.basesOf fragments)
        (({ u with entered := n :: u.entered } : Visit).collect g (g.methodsOf fragments)) u₁ →
      Walks g bs u₁ u' → Walks g (b :: bs) u u'

/-- Enters a base unless its name was entered before. -/
def enterBase (g : TypeGraph) (room : Nat) (v : Visit) (base : TypeId) : Option Visit := do
  let name ← g.metadataName? base
  if v.entered.contains name then return v
  else g.enter room (← g.fragments? base) { v with entered := name :: v.entered }

private theorem enterBase_eq_some {room : Nat} {v v' : Visit} {base : TypeId}
    (h : g.enterBase room v base = some v') :
    ∃ n, g.metadataName? base = some n ∧
      (n ∈ v.entered ∧ v' = v ∨ n ∉ v.entered ∧ ∃ fragments, g.fragments? base = some fragments ∧
        g.enter room fragments { v with entered := n :: v.entered } = some v') := by
  obtain ⟨n, hn, h⟩ := Option.bind_eq_some_iff.mp h
  refine ⟨n, hn, ?_⟩
  split at h
  · rename_i hmem
    cases h
    exact .inl ⟨List.contains_iff_mem.mp hmem, rfl⟩
  · rename_i hnot
    obtain ⟨fragments, hf, h⟩ := Option.bind_eq_some_iff.mp h
    exact .inr ⟨fun hmem => hnot (List.contains_iff_mem.mpr hmem), fragments, hf, h⟩

private theorem enter_succ_eq_some {room : Nat} {fragments : List TypeId} {v v' : Visit}
    (h : g.enter (room + 1) fragments v = some v') :
    (g.basesOf fragments).foldlM (g.enterBase room) (v.collect g (g.methodsOf fragments)) =
      some v' := by
  obtain ⟨own, hown, h⟩ := Option.bind_eq_some_iff.mp h
  obtain ⟨bases, hbases, h⟩ := Option.bind_eq_some_iff.mp h
  rw [methodsOf, basesOf, ← flatten_of_mapM hown, ← flatten_of_mapM hbases]
  exact h

/-- Every visit is a walk, in whatever room it takes place. -/
theorem enter_walks {room : Nat} {fragments : List TypeId} {v v' : Visit}
    (h : g.enter room fragments v = some v') :
    Walks g (g.basesOf fragments) (v.collect g (g.methodsOf fragments)) v' := by
  induction room generalizing fragments v v' with
  | zero => cases h
  | succ room ih =>
    have hfold := enter_succ_eq_some h
    clear h
    generalize v.collect g (g.methodsOf fragments) = u at hfold
    generalize g.basesOf fragments = bs at hfold
    induction bs generalizing u with
    | nil =>
      cases hfold
      exact .done
    | cons b bs ihbases =>
      rw [List.foldlM_cons] at hfold
      obtain ⟨u₁, hbase, hrest⟩ := Option.bind_eq_some_iff.mp hfold
      obtain ⟨n, hn, ⟨hmem, rfl⟩ | ⟨hnot, fs, hfs, henter⟩⟩ := enterBase_eq_some hbase
      · exact .pass hn hmem (ihbases _ hrest)
      · exact .enter hn hnot hfs (ih henter) (ihbases _ hrest)

/-- A walk only adds: no name is entered twice, and no method is collected twice. -/
theorem Walks.grows {bs : List TypeId} {u u' : Visit} (h : Walks g bs u u') :
    u.entered ⊆ u'.entered ∧ u.methods <+: u'.methods ∧
      (u.entered.Nodup → u'.entered.Nodup) ∧ (u.methods.Nodup → u'.methods.Nodup) := by
  induction h with
  | done => exact ⟨List.Subset.refl _, List.prefix_rfl, id, id⟩
  | pass _ _ _ ih => exact ih
  | @enter _ _ fragments n u u₁ u' _ hnot _ _ _ ihinner ihrest =>
    obtain ⟨hentered, new, hmethods, _, _, _, hnodup⟩ :=
      Visit.collect_spec (g := g) { u with entered := n :: u.entered } fragments
    rw [hentered, hmethods] at ihinner
    obtain ⟨inner₁, inner₂, inner₃, inner₄⟩ := ihinner
    obtain ⟨rest₁, rest₂, rest₃, rest₄⟩ := ihrest
    refine ⟨fun x hx => rest₁ (inner₁ (List.mem_cons_of_mem _ hx)), ?_, fun h => ?_, fun h => ?_⟩
    · exact (List.prefix_append _ _).trans (inner₂.trans rest₂)
    · exact rest₃ (inner₃ (List.nodup_cons.mpr ⟨hnot, h⟩))
    · exact rest₄ (inner₄ (hnodup h))

/-! ## Bases and their fragments -/

/-- Only declared types have bases and methods. -/
def MembersDeclared (g : TypeGraph) : Prop :=
  ∀ ty s, g.symbol? ty = some s → ty ∉ g.declared → s.bases = [] ∧ s.methods = []

theorem Bare.membersDeclared (h : g.Bare) : g.MembersDeclared :=
  fun ty s hs hty => (h ty s hs hty).2

/-- The type is constructed from an array, as if the array were a definition. -/
def ConstructedFromArray (g : TypeGraph) (ty : TypeId) : Prop :=
  ∃ d as e, g.form? ty = some (.constructed d as) ∧ g.form? d = some (.array e)

/-- No base is constructed from an array. -/
def PlainBases (g : TypeGraph) : Prop :=
  ∀ ty s, g.symbol? ty = some s → ∀ b ∈ s.bases, ¬ g.ConstructedFromArray b

theorem PlainBases.of_basesOf (h : g.PlainBases) {fragments : List TypeId} {b : TypeId}
    (hb : b ∈ g.basesOf fragments) : ¬ g.ConstructedFromArray b := by
  obtain ⟨f, _, bs, hbs, hmem⟩ := mem_basesOf.mp hb
  obtain ⟨s, hs, rfl⟩ := Option.map_eq_some_iff.mp hbs
  obtain ⟨d, _, hd⟩ := Option.bind_eq_some_iff.mp hs
  exact h d s hd b hmem

/-- A type that is not constructed from an array has the name of its definition. -/
theorem metadataName?_of_definition? (hg : Consistent g) {ty d : TypeId}
    (hplain : ¬ g.ConstructedFromArray ty) (hd : g.definition? ty = some d) :
    g.metadataName? ty = g.metadataName? d := by
  rw [definition?_eq_form?] at hd
  obtain ⟨f, hf, e⟩ := Option.map_eq_some_iff.mp hd
  cases f with
  | declared _ => cases e; rfl
  | array _ => cases e; rfl
  | constructed origin as =>
    change origin = d at e
    subst e
    have hissued : g.Issued origin :=
      Issued.of_lt (issued_iff_form?.mpr ⟨_, hf⟩) (hg.descends hf origin List.mem_cons_self)
    obtain ⟨f', hf', _⟩ := hissued.form?
    cases f' with
    | declared h => rw [metadataName?_of_constructed hf hf', metadataName?_of_declared hf']
    | constructed d' as' => exact absurd hf' (hg.plain hf d' as')
    | array e => exact absurd ⟨origin, as, e, hf, hf'⟩ hplain

theorem mem_declaredAs {ty : TypeId} {n : String} :
    ty ∈ g.declaredAs n ↔ ty ∈ g.declared ∧ g.metadataName? ty = some n := by
  rw [declaredAs, List.mem_filter, beq_iff_eq]

/-- A base is expanded to the declarations under its name. If there are none, it brings nothing. -/
theorem fragments?_expand (hg : Consistent g) (hmembers : g.MembersDeclared) {b : TypeId}
    {n : String} {fragments : List TypeId} (hplain : ¬ g.ConstructedFromArray b)
    (hn : g.metadataName? b = some n) (hfragments : g.fragments? b = some fragments) :
    g.methodsOf fragments = g.methodsOf (g.declaredAs n) ∧
      g.basesOf fragments = g.basesOf (g.declaredAs n) := by
  obtain ⟨d, hd, h⟩ := Option.bind_eq_some_iff.mp hfragments
  obtain ⟨n', hn', h⟩ := Option.bind_eq_some_iff.mp h
  rw [metadataName?_of_definition? hg hplain hd, hn'] at hn
  cases hn
  cases hdeclared : g.declaredAs n with
  | cons f fs =>
    rw [hdeclared] at h
    cases h
    exact ⟨rfl, rfl⟩
  | nil =>
    rw [hdeclared] at h
    cases h
    obtain ⟨hissued, hform⟩ := hg.definition?_plain hd
    obtain ⟨s, hs⟩ := issued_iff_symbol?.mp hissued
    have hnot : d ∉ g.declared := fun hmem => by
      have hnone : d ∈ g.declaredAs n := mem_declaredAs.mpr ⟨hmem, hn'⟩
      rw [hdeclared] at hnone
      cases hnone
    have hself : g.definition? d = some d := by
      rw [definition?, hs, Option.map_some]
      cases hf : s.form with
      | declared _ => rfl
      | array _ => rfl
      | constructed d' as => exact absurd (by rw [form?, hs, Option.map_some, hf]) (hform d' as)
    obtain ⟨hbases, hmethods⟩ := hmembers d s hs hnot
    have hsymbol : g.memberSymbol? d = some s := by
      rw [memberSymbol?, hself]
      exact hs
    simp [methodsOf, basesOf, methods?, bases?, hsymbol, hbases, hmethods]

/-! ## What is inherited -/

/-- The interfaces that an interface inherits from, by their metadata names. The interface has the
fragments `own` and the name `root`. Every base stands for all declarations under its name, and no
path leads through the interface itself. -/
inductive Inherits (g : TypeGraph) (own : List TypeId) (root : String) : String → Prop
  | base {b : TypeId} {n : String} :
      b ∈ g.basesOf own → g.metadataName? b = some n → n ≠ root → Inherits g own root n
  | step {b : TypeId} {m n : String} :
      Inherits g own root m → b ∈ g.basesOf (g.declaredAs m) → g.metadataName? b = some n →
        n ≠ root → Inherits g own root n

/-- The fragments of the interface itself, and of each interface that it inherits from. -/
inductive Contributes (g : TypeGraph) (own : List TypeId) (root : String) : List TypeId → Prop
  | own : Contributes g own root own
  | inherited {n : String} : Inherits g own root n → Contributes g own root (g.declaredAs n)

variable {own : List TypeId} {root : String}

theorem Inherits.ne_root {n : String} (h : Inherits g own root n) : n ≠ root := by
  cases h with
  | base _ _ hne => exact hne
  | step _ _ _ hne => exact hne

theorem Contributes.inherits {fragments : List TypeId} (h : Contributes g own root fragments)
    {b : TypeId} {n : String} (hb : b ∈ g.basesOf fragments) (hn : g.metadataName? b = some n)
    (hne : n ≠ root) : Inherits g own root n := by
  cases h with
  | own => exact .base hb hn hne
  | inherited hm => exact .step hm hb hn hne

/-- What a visit has collected comes from the interface and what it inherits from. Of two methods
with one name, both come from one interface, in the order they have there. -/
structure Collected (g : TypeGraph) (own : List TypeId) (root : String) (v : Visit) : Prop where
  root_entered : root ∈ v.entered
  inherited : ∀ n ∈ v.entered, n = root ∨ Inherits g own root n
  sources : ∀ m ∈ v.methods, ∃ group, Contributes g own root group ∧ m ∈ g.methodsOf group
  ordered : v.methods.Pairwise fun a b => g.SameName a b →
    ∃ group, Contributes g own root group ∧ [a, b].Sublist (g.methodsOf group)

theorem Collected.collect {v : Visit} (h : Collected g own root v) {group : List TypeId}
    (hgroup : Contributes g own root group) :
    Collected g own root (v.collect g (g.methodsOf group)) := by
  obtain ⟨hentered, new, hmethods, hsub, hfree, _, _⟩ := Visit.collect_spec (g := g) v group
  refine ⟨by rw [hentered]; exact h.root_entered, by rw [hentered]; exact h.inherited, ?_, ?_⟩
  · rw [hmethods]
    intro m hm
    rcases List.mem_append.mp hm with hm | hm
    · exact h.sources m hm
    · exact ⟨group, hgroup, hsub.subset hm⟩
  · rw [hmethods, List.pairwise_append]
    refine ⟨h.ordered, ?_, fun a ha b hb hname => absurd hname (hfree b hb a ha)⟩
    exact List.pairwise_iff_forall_sublist.mpr fun hab _ => ⟨group, hgroup, hab.trans hsub⟩

theorem Collected.enter {v : Visit} (h : Collected g own root v) {n : String}
    (hn : Inherits g own root n) :
    Collected g own root { v with entered := n :: v.entered } :=
  ⟨List.mem_cons_of_mem _ h.root_entered, List.forall_mem_cons.mpr ⟨.inr hn, h.inherited⟩,
    h.sources, h.ordered⟩

section Walks

variable (hg : Consistent g) (hmembers : g.MembersDeclared) (hbases : g.PlainBases)
include hg hmembers hbases

/-- A walk through inherited bases collects what is inherited. -/
theorem Walks.sound {bs : List TypeId} {u u' : Visit} (h : Walks g bs u u')
    (hplain : ∀ b ∈ bs, ¬ g.ConstructedFromArray b)
    (hinherits : ∀ b ∈ bs, ∀ n, g.metadataName? b = some n → n ≠ root → Inherits g own root n)
    (hu : Collected g own root u) : Collected g own root u' := by
  induction h with
  | done => exact hu
  | pass _ _ _ ih =>
    exact ih (List.forall_mem_cons.mp hplain).2 (List.forall_mem_cons.mp hinherits).2 hu
  | @enter b bs fragments n u u₁ u' hn hnot hfragments _ _ ihinner ihrest =>
    obtain ⟨hb, hplain⟩ := List.forall_mem_cons.mp hplain
    obtain ⟨hinherit, hinherits⟩ := List.forall_mem_cons.mp hinherits
    have hne : n ≠ root := fun e => hnot (e ▸ hu.root_entered)
    have hin : Inherits g own root n := hinherit n hn hne
    obtain ⟨hmethods, hbasesOf⟩ := fragments?_expand hg hmembers hb hn hfragments
    refine ihrest hplain hinherits (ihinner (fun _ => hbases.of_basesOf) ?_ ?_)
    · rw [hbasesOf]
      exact fun _ hbase _ => (Contributes.inherited hin).inherits hbase
    · rw [hmethods]
      exact (hu.enter hin).collect (.inherited hin)

end Walks

/-- Everything in fragments was looked at: their bases are entered, and the names of their methods
are taken. -/
structure Covered (g : TypeGraph) (fragments : List TypeId) (v : Visit) : Prop where
  bases : ∀ b ∈ g.basesOf fragments, ∀ n, g.metadataName? b = some n → n ∈ v.entered
  methods : ∀ m ∈ g.methodsOf fragments, ∃ m' ∈ v.methods, g.SameName m' m

theorem Covered.mono {fragments : List TypeId} {v v' : Visit} (h : Covered g fragments v)
    (hentered : v.entered ⊆ v'.entered) (hmethods : v.methods <+: v'.methods) :
    Covered g fragments v' := by
  refine ⟨fun b hb n hn => hentered (h.bases b hb n hn), fun m hm => ?_⟩
  obtain ⟨m', hm', hname⟩ := h.methods m hm
  exact ⟨m', hmethods.subset hm', hname⟩

section Walks

variable (hg : Consistent g) (hmembers : g.MembersDeclared) (hbases : g.PlainBases)
include hg hmembers hbases

/-- After a walk its bases are entered, and whatever was entered on the way is covered. -/
theorem Walks.covered {bs : List TypeId} {u u' : Visit} (h : Walks g bs u u')
    (hplain : ∀ b ∈ bs, ¬ g.ConstructedFromArray b) :
    (∀ b ∈ bs, ∀ n, g.metadataName? b = some n → n ∈ u'.entered) ∧
      ∀ n ∈ u'.entered, n ∉ u.entered → Covered g (g.declaredAs n) u' := by
  induction h with
  | done => exact ⟨by simp, fun n hn hnot => absurd hn hnot⟩
  | @pass b bs n u u' hn hmem hrest ih =>
    obtain ⟨ih₁, ih₂⟩ := ih (List.forall_mem_cons.mp hplain).2
    refine ⟨List.forall_mem_cons.mpr ⟨fun n' hn' => ?_, ih₁⟩, ih₂⟩
    cases hn.symm.trans hn'
    exact hrest.grows.1 hmem
  | @enter b bs fragments n u u₁ u' hn hnot hfragments hinner hrest ihinner ihrest =>
    obtain ⟨hb, hplain⟩ := List.forall_mem_cons.mp hplain
    obtain ⟨hmethodsOf, hbasesOf⟩ := fragments?_expand hg hmembers hb hn hfragments
    obtain ⟨hentered, new, hmethods, _, _, htaken, _⟩ :=
      Visit.collect_spec (g := g) { u with entered := n :: u.entered } fragments
    obtain ⟨inner₁, inner₂⟩ := ihinner fun _ => hbases.of_basesOf
    obtain ⟨rest₁, rest₂⟩ := ihrest hplain
    obtain ⟨growsInner₁, growsInner₂, _⟩ := hinner.grows
    obtain ⟨growsRest₁, growsRest₂, _⟩ := hrest.grows
    rw [hentered] at inner₂ growsInner₁
    rw [hmethods] at growsInner₂
    have hself : Covered g (g.declaredAs n) u₁ := by
      rw [hmethodsOf] at htaken
      rw [hbasesOf] at inner₁
      refine ⟨inner₁, fun m hm => ?_⟩
      obtain ⟨m', hm', hname⟩ := htaken m hm
      exact ⟨m', growsInner₂.subset hm', hname⟩
    refine ⟨List.forall_mem_cons.mpr ⟨fun n' hn' => ?_, rest₁⟩, fun x hx hnew => ?_⟩
    · cases hn.symm.trans hn'
      exact growsRest₁ (growsInner₁ List.mem_cons_self)
    · -- entered for this base, below it, or later
      by_cases hx₁ : x ∈ u₁.entered
      · refine Covered.mono ?_ growsRest₁ growsRest₂
        by_cases e : x = n
        · rw [e]
          exact hself
        · exact inner₂ x hx₁ fun hmem => (List.mem_cons.mp hmem).elim e hnew
      · exact rest₂ x hx hx₁

end Walks

/-! ## Flattened methods -/

/-- What a visit of an interface leads to: it enters exactly what the interface inherits from, it
collects methods of these interfaces only, it misses no name, and where it collects two methods of
one name, both come from one interface, in the order they have there. -/
structure Flattens (g : TypeGraph) (own : List TypeId) (root : String) (v : Visit) : Prop where
  entered : ∀ n, n ∈ v.entered ↔ n = root ∨ Inherits g own root n
  sources : ∀ m ∈ v.methods, ∃ group, Contributes g own root group ∧ m ∈ g.methodsOf group
  names : ∀ group, Contributes g own root group → ∀ m ∈ g.methodsOf group,
    ∃ m' ∈ v.methods, g.SameName m' m
  ordered : v.methods.Pairwise fun a b => g.SameName a b →
    ∃ group, Contributes g own root group ∧ [a, b].Sublist (g.methodsOf group)

theorem methods?_of_declared {ty : TypeId} {h : TypeHead} (hf : g.form? ty = some (.declared h)) :
    ∃ s, g.symbol? ty = some s ∧ g.methods? ty = some (s.methods.filter g.isOrdinary) := by
  obtain ⟨s, hs, _⟩ := symbol?_of_form? hf
  refine ⟨s, hs, ?_⟩
  have hself : g.definition? ty = some ty := by rw [definition?_eq_form?, hf]; rfl
  simp [methods?, memberSymbol?, hself, hs]

/-- No method belongs to two fragments, or to one fragment twice. -/
theorem nodup_methodsOf (hg : Consistent g) {fragments : List TypeId} (hnodup : fragments.Nodup)
    (hdeclared : ∀ f ∈ fragments, f ∈ g.declared) : (g.methodsOf fragments).Nodup := by
  have hmethods : ∀ f ∈ fragments, ∃ s, g.symbol? f = some s ∧
      (g.methods? f).getD [] = s.methods.filter g.isOrdinary := fun f hf => by
    obtain ⟨h, hform⟩ := hg.declared.mp (hdeclared f hf)
    obtain ⟨s, hs, hms⟩ := methods?_of_declared hform
    exact ⟨s, hs, by rw [hms, Option.getD_some]⟩
  refine List.nodup_flatMap.mpr ⟨fun f hf => ?_, hnodup.imp_of_mem fun {a b} ha hb hne => ?_⟩
  · obtain ⟨s, hs, hms⟩ := hmethods f hf
    rw [hms]
    refine List.Nodup.filter _ ((hg.places hs).imp fun {x y} hlt e => ?_)
    rw [e] at hlt
    exact Nat.lt_irrefl _ hlt
  · obtain ⟨s, hs, hms⟩ := hmethods a ha
    obtain ⟨t, ht, hmt⟩ := hmethods b hb
    intro m hm hm'
    simp only [hms] at hm
    simp only [hmt] at hm'
    exact hne (hg.apart hs ht (List.mem_filter.mp hm).1 (List.mem_filter.mp hm').1)

/-- The visit of an interface from some of its fragments has a result. -/
theorem exists_visit (hg : Consistent g) (hne : own ≠ [])
    (hown : ∀ f ∈ own, f ∈ g.declaredAs root) :
    ∃ v, g.enter (g.typeCount + 1) own { entered := [root] } = some v ∧
      g.flattened? own = some v.methods := by
  have hsame : List.Forall₂ (g.Renamed id) own own := List.forall₂_same.mpr fun f hf =>
    ⟨hg.toListed.issued (mem_declaredAs.mp (hown f hf)).1, rfl⟩
  obtain ⟨ids, _, hids, _⟩ := (Translation.refl hg).embedding.flattened? hsame
  obtain ⟨first, rest, rfl⟩ := List.exists_cons_of_ne_nil hne
  have hname := (mem_declaredAs.mp (hown first List.mem_cons_self)).2
  have hentered : (first :: rest).head?.toList.mapM g.metadataName? = some [root] := by simp [hname]
  rw [flattened?, hentered] at hids ⊢
  obtain ⟨entered, he, hids'⟩ := Option.bind_eq_some_iff.mp hids
  cases he
  obtain ⟨v, hv, e⟩ := Option.bind_eq_some_iff.mp hids'
  cases e
  exact ⟨v, hv, hids⟩

/-- From distinct fragments of an interface its methods and those it inherits are always found. No
method is found twice, and those of the fragments themselves come first. If no base is constructed
from an array, nothing is found that is not inherited, no name is lost, and two methods with one
name come from one interface. -/
theorem flattened?_complete (hg : g.Reachable) (hmembers : g.MembersDeclared) (hne : own ≠ [])
    (hnodup : own.Nodup) (hown : ∀ f ∈ own, f ∈ g.declaredAs root) :
    ∃ v, g.enter (g.typeCount + 1) own { entered := [root] } = some v ∧
      g.flattened? own = some v.methods ∧ v.entered.Nodup ∧ v.methods.Nodup ∧
      g.methodsOf own <+: v.methods ∧ (g.PlainBases → Flattens g own root v) := by
  have hconsistent := hg.consistent
  have hmethods : (g.methodsOf own).Nodup :=
    nodup_methodsOf hconsistent hnodup fun f hf => (mem_declaredAs.mp (hown f hf)).1
  obtain ⟨v, hv, hflattened⟩ := exists_visit hconsistent hne hown
  have hwalk := enter_walks hv
  obtain ⟨hentered, hprefix, honce, hdistinct⟩ := hwalk.grows
  rw [collect_first hmethods] at hprefix hdistinct
  refine ⟨v, hv, hflattened, honce (List.nodup_singleton _), hdistinct hmethods, hprefix,
    fun hbases => ?_⟩
  have hcollected : Collected g own root v := by
    refine hwalk.sound hconsistent hmembers hbases (fun _ => hbases.of_basesOf)
      (fun _ hb _ => Contributes.own.inherits hb) (Collected.collect ?_ .own)
    exact ⟨List.mem_singleton_self _, by simp, by simp, .nil⟩
  obtain ⟨hentersBases, hcovers⟩ :=
    hwalk.covered hconsistent hmembers hbases fun _ => hbases.of_basesOf
  have hcovered : ∀ n, Inherits g own root n → n ∈ v.entered → Covered g (g.declaredAs n) v :=
    fun n hn hmem => hcovers n hmem fun h => hn.ne_root (List.mem_singleton.mp h)
  have hinherited : ∀ n, Inherits g own root n → n ∈ v.entered := fun n hn => by
    induction hn with
    | base hb hn _ => exact hentersBases _ hb _ hn
    | step hm hb hn _ ih => exact (hcovered _ hm ih).bases _ hb _ hn
  refine ⟨fun n => ⟨hcollected.inherited n, ?_⟩, hcollected.sources, ?_, hcollected.ordered⟩
  · rintro (rfl | hn)
    · exact hcollected.root_entered
    · exact hinherited n hn
  · rintro group (_ | hn) m hm
    · exact ⟨m, hprefix.subset hm, sameName_self hm⟩
    · exact (hcovered _ hn (hinherited _ hn)).methods m hm

theorem plainBases_of_constructions (hg : Consistent g)
    (h : ∀ c ∈ g.constructions, c.1.1 ∈ g.declared) : g.PlainBases := by
  rintro _ _ _ b _ ⟨d, as, e, hb, hd⟩
  have hmem : ((d, as), b) ∈ g.constructions := by
    obtain ⟨before, after, e, _⟩ := List.lookup_eq_some_iff.mp (hg.constructions.mpr hb)
    rw [e]
    simp
  obtain ⟨head, hhead⟩ := hg.declared.mp (h _ hmem)
  rw [hd] at hhead
  cases hhead

theorem DeclaredReachable.addBase {g' : TypeGraph} (hg : g.DeclaredReachable) {ty base : TypeId}
    (hty : ty ∈ g.declared) (hbase : g.Issued base) (h : g.addBase? ty base = some g') :
    g'.DeclaredReachable := by
  have hissued := hg.reachable.consistent.toListed.issued hty
  refine .step hg (.addBase hissued hbase h) fun ty' hadds => ?_
  by_contra hty'
  have hne : ty ≠ ty' := fun e => hty' (e ▸ hty)
  -- only the type with the new base differs afterwards
  have hsame := hadds.symbol?_other hne
  obtain ⟨s, hs⟩ := issued_iff_symbol?.mp hissued
  rw [(modify?_eq_some h).2, if_pos rfl, hs, Option.map_some, Option.some.injEq] at hsame
  exact absurd (congrArg (·.bases) hsame) (by simp)

theorem DeclaredReachable.withConstruction (hg : g.DeclaredReachable) {d : TypeId}
    {as : List TypeId} (hd : g.Issued d) (has : ∀ a ∈ as, g.Issued a)
    (h : (construct d as).run g = some (.ok g.nextType, g.withConstruction d as)) :
    (g.withConstruction d as).DeclaredReachable :=
  .step hg (.construct hd has h) fun _ hadds => absurd hadds (AddsMemberTo.not_of_push rfl)

theorem DeclaredReachable.withArray (hg : g.DeclaredReachable) {e : TypeId} (he : g.Issued e)
    (h : (arrayOf e).run g = some (.ok g.nextType, g.withArray e)) :
    (g.withArray e).DeclaredReachable :=
  .step hg (.arrayOf he h) fun _ hadds => absurd hadds (AddsMemberTo.not_of_push rfl)

/-- A generic interface. -/
def audited : TypeGraph :=
  declareAll
    [{ head := { kind := .classType, nameSpace := "App", name := "File" } },
     { head := { kind := .interface, nameSpace := "App", name := "IAudit", arity := 1 }
       methods := [{ name := "Trace", returns := ⟨0⟩ }, { name := "Save", returns := ⟨0⟩ }] }] {}

/-- Interfaces over it: a reader in two fragments, a writer, and an editor that inherits from
both. -/
def documents : TypeGraph :=
  declareAll
    [{ head := { kind := .interface, nameSpace := "App", name := "IReader" }
       bases := [⟨2⟩], methods := [{ name := "Read", returns := ⟨0⟩ }] },
     { head := { kind := .interface, nameSpace := "App", name := "IReader" }
       methods := [{ name := "Read", returns := ⟨0⟩ }, { name := "Seek", returns := ⟨0⟩ }] },
     { head := { kind := .interface, nameSpace := "App", name := "IWriter" }
       bases := [⟨2⟩]
       methods := [{ name := "Write", returns := ⟨0⟩ }, { name := "Read", returns := ⟨0⟩ }] },
     { head := { kind := .interface, nameSpace := "App", name := "IEditor" }
       bases := [⟨3⟩, ⟨5⟩], methods := [{ name := "Save", returns := ⟨0⟩ }] }]
    (audited.withConstruction ⟨1⟩ [⟨0⟩])

/-- The same, with the editor as a base of itself. -/
def selfBased : TypeGraph := (documents.addBase? ⟨6⟩ ⟨6⟩).getD {}

/-- The same, with the editor also as a base of the generic interface. -/
def looped : TypeGraph := (selfBased.addBase? ⟨1⟩ ⟨6⟩).getD {}

private theorem looped_declaredReachable : looped.DeclaredReachable := by
  have haudited : audited.DeclaredReachable := .declareAll .empty (by decide +kernel)
  have hdocuments : documents.DeclaredReachable :=
    .declareAll (haudited.withConstruction (by decide +kernel) (by decide +kernel) rfl)
      (by decide +kernel)
  have hself : documents.addBase? ⟨6⟩ ⟨6⟩ = some selfBased := rfl
  have hcycle : selfBased.addBase? ⟨1⟩ ⟨6⟩ = some looped := rfl
  refine (hdocuments.addBase ?_ ?_ hself).addBase ?_ ?_ hcycle <;> decide +kernel

theorem looped_flattened :
    looped.flattened? [⟨6⟩] = some [⟨7⟩, ⟨2⟩, ⟨3⟩, ⟨4⟩, ⟨0⟩, ⟨5⟩] ∧
      ∃ v, looped.flattened? [⟨6⟩] = some v.methods ∧ v.entered.Nodup ∧
        Flattens looped [⟨6⟩] "App.IEditor" v := by
  have hreachable := looped_declaredReachable.reachable
  have hplain := plainBases_of_constructions hreachable.consistent (by decide +kernel)
  obtain ⟨v, _, hv, hentered, _, _, hflattens⟩ :=
    @flattened?_complete looped [⟨6⟩] "App.IEditor" hreachable
      looped_declaredReachable.bare.membersDeclared (by decide) (by decide) (by decide +kernel)
  exact ⟨by decide +kernel, v, hv, hentered, hflattens hplain⟩

/-- One class, an array of it, and a type constructed from the array. -/
def constructedArray : TypeGraph :=
  let single := declareAll [{ head := { kind := .classType, nameSpace := "", name := "X" } }] {}
  (single.withArray ⟨0⟩).withConstruction ⟨1⟩ []

private theorem constructedArray_declaredReachable : constructedArray.DeclaredReachable := by
  refine .withConstruction (.withArray (.declareAll .empty ?_) ?_ rfl) ?_ ?_ rfl <;>
    decide +kernel

/-- An interface in two fragments, named like the array, with the constructed type as a base. -/
def arrayBase : TypeGraph :=
  declareAll
    [{ head := { kind := .interface, nameSpace := "", name := "X[]" }
       bases := [⟨2⟩], methods := [{ name := "A", returns := ⟨0⟩ }] },
     { head := { kind := .interface, nameSpace := "", name := "X[]" }
       methods := [{ name := "B", returns := ⟨0⟩ }] }] constructedArray

private theorem inherits_arrayBase {n : String} (h : Inherits arrayBase [⟨3⟩] "X[]" n) :
    n = "" := by
  have hname : arrayBase.metadataName? ⟨2⟩ = some "" := by decide +kernel
  have hown : arrayBase.basesOf [⟨3⟩] = [⟨2⟩] := by decide +kernel
  have hnone : arrayBase.basesOf (arrayBase.declaredAs "") = [] := by decide +kernel
  induction h with
  | base hb hn _ =>
    rw [hown, List.mem_singleton] at hb
    rw [hb, hname] at hn
    exact (Option.some.inj hn).symm
  | step _ hb _ _ ih =>
    rw [ih, hnone] at hb
    cases hb

/-- The interface is entered again through that base: a method of the fragment that was not asked
for is collected, though nothing that is inherited has it. -/
theorem arrayBase_reenters :
    arrayBase.Reachable ∧ arrayBase.MembersDeclared ∧ (⟨3⟩ : TypeId) ∈ arrayBase.declaredAs "X[]" ∧
      arrayBase.flattened? [⟨3⟩] = some [⟨0⟩, ⟨1⟩] ∧
      ¬ ∃ group, Contributes arrayBase [⟨3⟩] "X[]" group ∧ ⟨1⟩ ∈ arrayBase.methodsOf group := by
  have hreachable : arrayBase.DeclaredReachable :=
    .declareAll constructedArray_declaredReachable (by decide +kernel)
  refine ⟨hreachable.reachable, hreachable.bare.membersDeclared, by decide +kernel,
    by decide +kernel, ?_⟩
  rintro ⟨_, _ | hn, hmem⟩
  · exact absurd hmem (by decide +kernel)
  · rw [inherits_arrayBase hn] at hmem
    exact absurd hmem (by decide +kernel)

end HubBindings.TypeGraph
