import HubBindings.Proofs.TypeGraph.ReadBack

/-!
When references resolve.

* A `Requirement` is what a reference asks of the declared types: that there is a type with some
  metadata name, and that the first one has the right kind or number of type parameters.
  `TypeRef.requirements` lists what a reference asks, in the order in which it is checked;
* `Declares` says what the declared types of a graph are. A name leads to the first of them that has
  it (`Declares.lookup`), whatever was constructed in the meantime;
* `Meets` says that a computation fails with the error of the first requirement that is not met, and
  has a result if all are met. Resolving a reference does so (`resolve_meets`).
-/

namespace HubBindings

open Sequencing

/-- The first of some heads with a metadata name. -/
def TypeHead.first? (heads : List TypeHead) (name : String) : Option TypeHead :=
  heads.find? fun h => h.metadataName = name

/-- What is asked of the declared types. -/
inductive Requirement where
  /-- Some type has the metadata name. -/
  | declared (name : String)
  /-- The first type with the metadata name has the kind. -/
  | kind (name : String) (kind : TypeKind)
  /-- The first type with the metadata name has so many type parameters. -/
  | arity (name : String) (count : Nat)
  deriving DecidableEq, Repr

namespace Requirement

/-- The metadata name that a requirement is about. -/
def name : Requirement → String
  | declared n => n
  | kind n _ => n
  | arity n _ => n

/-- What a requirement finds wrong with the type that its name leads to. -/
def conflict? (h : TypeHead) : Requirement → Option GraphError
  | declared _ => none
  | kind n k => if h.kind = k then none else some (.duplicateDefinition n h.kind.name k.name)
  | arity n count => if h.arity = count then none else some (.arityMismatch n h.arity count)

/-- What a requirement finds wrong with some declared types. -/
def error? (heads : List TypeHead) (q : Requirement) : Option GraphError :=
  match TypeHead.first? heads q.name with
  | none => some (.unresolvedType q.name)
  | some h => q.conflict? h

/-- What the first requirement that is not met finds wrong. -/
def firstError? (heads : List TypeHead) (qs : List Requirement) : Option GraphError :=
  qs.findSome? (error? heads)

variable {heads : List TypeHead} {q : Requirement}

theorem error?_of_first? {h : TypeHead} (hfirst : TypeHead.first? heads q.name = some h) :
    q.error? heads = q.conflict? h := by
  rw [error?, hfirst]

theorem error?_of_first?_none (hnone : TypeHead.first? heads q.name = none) :
    q.error? heads = some (.unresolvedType q.name) := by
  rw [error?, hnone]

theorem error?_eq_none_iff :
    q.error? heads = none ↔ ∃ h, TypeHead.first? heads q.name = some h ∧ q.conflict? h = none := by
  cases hfirst : TypeHead.first? heads q.name with
  | none => simp [error?_of_first?_none hfirst]
  | some h => simp [error?_of_first? hfirst]

theorem firstError?_append (qs qs' : List Requirement) :
    firstError? heads (qs ++ qs') = (firstError? heads qs).or (firstError? heads qs') :=
  List.findSome?_append

theorem firstError?_singleton : firstError? heads [q] = q.error? heads := by
  simp [firstError?]

theorem firstError?_eq_none_iff {qs : List Requirement} :
    firstError? heads qs = none ↔ ∀ q ∈ qs, q.error? heads = none :=
  List.findSome?_eq_none_iff

end Requirement

/-! ## What references ask -/

namespace TypeRef

mutual

/-- What a reference asks of the declared types: the definition of a generic reference comes before
its arguments, the number of its arguments after them. -/
def requirements : TypeRef → List Requirement
  | .named name => [.declared name]
  | .generic definition arguments =>
    .declared definition :: (allRequirements arguments ++ [.arity definition arguments.length])
  | .array element => element.requirements

/-- What several references ask. -/
def allRequirements : List TypeRef → List Requirement
  | [] => []
  | r :: rest => r.requirements ++ allRequirements rest

end

/-- A reference occurs in another, at any depth. -/
inductive Within (part : TypeRef) : TypeRef → Prop
  | self : Within part part
  | argument {definition : String} {arguments : List TypeRef} {a : TypeRef} :
      a ∈ arguments → Within part a → Within part (.generic definition arguments)
  | element {e : TypeRef} : Within part e → Within part (.array e)

/-- What a reference asks of the declared types without regard to the references in it. -/
def ownRequirements : TypeRef → List Requirement
  | .named name => [.declared name]
  | .generic definition arguments =>
    [.declared definition, .arity definition arguments.length]
  | .array _ => []

private theorem mem_allRequirements {refs : List TypeRef} {q : Requirement} :
    q ∈ allRequirements refs ↔ ∃ r ∈ refs, q ∈ r.requirements := by
  induction refs with
  | nil => simp [allRequirements]
  | cons r refs ih => simp [allRequirements, ih]

private theorem requirements_of_within {part ref : TypeRef} {q : Requirement}
    (hwithin : Within part ref) (hq : q ∈ part.ownRequirements) : q ∈ ref.requirements := by
  induction hwithin with
  | self =>
    cases part with
    | named name => exact hq
    | generic definition arguments =>
      simp only [ownRequirements, List.mem_cons, List.not_mem_nil, or_false] at hq
      simp only [requirements, List.mem_cons, List.mem_append, List.not_mem_nil, or_false]
      exact hq.imp_right .inr
    | array element => cases hq
  | argument ha _ ih =>
    have hall := mem_allRequirements.mpr ⟨_, ha, ih⟩
    simp [requirements, hall]
  | element _ ih =>
    rw [requirements]
    exact ih

mutual

private theorem within_of_requirements : ∀ (ref : TypeRef) {q : Requirement}, q ∈ ref.requirements →
    ∃ part, Within part ref ∧ q ∈ part.ownRequirements
  | .named name, q, hq => ⟨.named name, .self, hq⟩
  | .generic definition arguments, q, hq => by
    simp only [requirements, List.mem_cons, List.mem_append, List.not_mem_nil, or_false] at hq
    rcases hq with rfl | hq | rfl
    · exact ⟨.generic definition arguments, .self, by simp [ownRequirements]⟩
    · obtain ⟨a, ha, part, hwithin, hq⟩ := within_of_allRequirements arguments hq
      exact ⟨part, .argument ha hwithin, hq⟩
    · exact ⟨.generic definition arguments, .self, by simp [ownRequirements]⟩
  | .array element, q, hq => by
    rw [requirements] at hq
    obtain ⟨part, hwithin, hq⟩ := within_of_requirements element hq
    exact ⟨part, .element hwithin, hq⟩

private theorem within_of_allRequirements : ∀ (refs : List TypeRef) {q : Requirement},
    q ∈ allRequirements refs → ∃ a ∈ refs, ∃ part, Within part a ∧ q ∈ part.ownRequirements
  | [], q, hq => by cases hq
  | ref :: refs, q, hq => by
    rw [allRequirements] at hq
    rcases List.mem_append.mp hq with hq | hq
    · obtain ⟨part, hwithin, hq⟩ := within_of_requirements ref hq
      exact ⟨ref, List.mem_cons_self, part, hwithin, hq⟩
    · obtain ⟨a, ha, part, hwithin, hq⟩ := within_of_allRequirements refs hq
      exact ⟨a, List.mem_cons_of_mem _ ha, part, hwithin, hq⟩

end

/-- What a reference asks is what the references that occur in it ask. -/
theorem mem_requirements {ref : TypeRef} {q : Requirement} :
    q ∈ ref.requirements ↔ ∃ part, Within part ref ∧ q ∈ part.ownRequirements := by
  constructor
  · exact within_of_requirements ref
  · rintro ⟨part, hwithin, hq⟩
    exact requirements_of_within hwithin hq

end TypeRef

/-! ## Declared types -/

namespace TypeGraph

variable {g g' : TypeGraph} {heads : List TypeHead}

/-- The declared types of a graph have these heads, in the order of their declarations. -/
structure Declares (g : TypeGraph) (heads : List TypeHead) : Prop where
  changes : Changes {} g
  forms : List.Forall₂ (fun ty h => g.form? ty = some (.declared h)) g.declared heads

theorem Declares.empty : Declares {} [] := ⟨.refl, .nil⟩

theorem Declares.consistent (hg : g.Declares heads) : Consistent g := hg.changes.consistent .empty

theorem Declares.coherent (hg : g.Declares heads) : Coherent g := hg.changes.coherent .empty

/-- Every graph that calls lead to declares types. -/
theorem Reachable.declares (hg : g.Reachable) : ∃ heads, g.Declares heads := by
  have hall : ∀ tys : List TypeId, (∀ ty ∈ tys, ∃ h, g.form? ty = some (.declared h)) →
      ∃ heads, List.Forall₂ (fun ty h => g.form? ty = some (.declared h)) tys heads := by
    intro tys htys
    induction tys with
    | nil => exact ⟨[], .nil⟩
    | cons ty tys ih =>
      obtain ⟨h, hf⟩ := htys ty List.mem_cons_self
      obtain ⟨heads, hheads⟩ := ih fun x hx => htys x (List.mem_cons_of_mem _ hx)
      exact ⟨h :: heads, .cons hf hheads⟩
  obtain ⟨heads, hheads⟩ := hall g.declared hg.coherent.declared
  exact ⟨heads, hg.changes, hheads⟩

theorem Declares.kept (hg : g.Declares heads) (h : Changes g g')
    (hdeclared : g'.declared = g.declared) : g'.Declares heads where
  changes := hg.changes.trans h
  forms := by
    rw [hdeclared]
    exact hg.forms.imp fun _ _ hf => h.form?_kept hf

theorem Declares.declare (hg : g.Declares heads) {d : Declaration} (hd : g.IssuedDeclaration d) :
    (g.declare d).2.Declares (heads ++ [d.head]) where
  changes := hg.changes.tail (.declare d hd)
  forms := by
    refine List.rel_append ?_ (.cons ?_ .nil)
    · exact hg.forms.imp fun _ _ hf => (Change.declare d hd).form?_kept hf
    · exact form?_declare g d

/-- A name leads to the first declared type that has it. -/
theorem Declares.lookup (hg : g.Declares heads) (name : String) :
    Option.Rel (fun ty h => g.form? ty = some (.declared h)) (g.lookup name)
      (TypeHead.first? heads name) := by
  rw [hg.consistent.lookup, TypeHead.first?, ← List.head?_filter, declaredAs]
  refine rel_head?_of_forall₂ (forall₂_filter hg.forms fun ty h hf => ?_)
  rw [metadataName?_of_declared hf, Bool.eq_iff_iff]
  simp

/-! ## Computations that check requirements -/

variable {α β : Type} {P : TypeGraph → α → Prop} {Q : TypeGraph → β → Prop}
  {qs qs' : List Requirement}

/-- From `g` the computation fails with the error of the first requirement that is not met; if all
are met, it has a result that satisfies `P`. -/
def Meets (heads : List TypeHead) (qs : List Requirement) (g : TypeGraph) (x : GraphM α)
    (P : TypeGraph → α → Prop) : Prop :=
  ∃ r g', x.run g = some (r, g') ∧
    ((∃ e, Requirement.firstError? heads qs = some e ∧ r = .error e) ∨
      (Requirement.firstError? heads qs = none ∧ ∃ a, r = .ok a ∧ Changes g g' ∧ P g' a))

namespace Meets

theorem ok {x : GraphM α} {a : α} (hrun : x.run g = some (.ok a, g')) (hchanges : Changes g g')
    (ha : P g' a) : Meets heads [] g x P :=
  ⟨_, g', hrun, .inr ⟨rfl, a, rfl, hchanges, ha⟩⟩

theorem pure {a : α} (ha : P g a) : Meets heads [] g (pure a) P := .ok rfl .refl ha

theorem bind {x : GraphM α} {k : α → GraphM β} (hx : Meets heads qs g x P)
    (hk : ∀ g₁ a, Changes g g₁ → P g₁ a → Meets heads qs' g₁ (k a) Q) :
    Meets heads (qs ++ qs') g (x >>= k) Q := by
  rw [Meets, Requirement.firstError?_append]
  obtain ⟨r, g₁, hrun, ⟨e, he, rfl⟩ | ⟨hnone, a, rfl, hchanges, ha⟩⟩ := hx
  · rw [he]
    exact ⟨.error e, g₁, run_bind_iff.mpr (.inl ⟨e, hrun, rfl⟩), .inl ⟨e, rfl, rfl⟩⟩
  · obtain ⟨r, g₂, hrun', hrest⟩ := hk g₁ a hchanges ha
    rw [hnone, Option.none_or]
    refine ⟨r, g₂, run_bind_iff.mpr (.inr ⟨a, g₁, hrun, hrun'⟩), hrest.imp_right ?_⟩
    rintro ⟨hnone', b, rfl, hchanges', hb⟩
    exact ⟨hnone', b, rfl, hchanges.trans hchanges', hb⟩

/-- A last step that asks nothing. -/
theorem andThen {x : GraphM α} {k : α → GraphM β} (hx : Meets heads qs g x P)
    (hk : ∀ g₁ a, Changes g g₁ → P g₁ a → Meets heads [] g₁ (k a) Q) :
    Meets heads qs g (x >>= k) Q := by
  simpa using hx.bind hk

theorem mono {x : GraphM α} {P' : TypeGraph → α → Prop} (hx : Meets heads qs g x P)
    (h : ∀ g' a, P g' a → P' g' a) : Meets heads qs g x P' := by
  obtain ⟨r, g', hrun, hcases⟩ := hx
  refine ⟨r, g', hrun, hcases.imp_right ?_⟩
  rintro ⟨hnone, a, rfl, hchanges, ha⟩
  exact ⟨hnone, a, rfl, hchanges, h g' a ha⟩

theorem forM {as : List α} {x : α → GraphM Unit} {q : α → List Requirement} (hg : g.Declares heads)
    (hx : ∀ a ∈ as, ∀ g₁, g₁.Declares heads → Changes g g₁ →
      Meets heads (q a) g₁ (x a) fun g' _ => g'.Declares heads) :
    Meets heads (as.flatMap q) g (as.forM x) fun g' _ => g'.Declares heads := by
  induction as generalizing g with
  | nil => exact .pure hg
  | cons a as ih =>
    refine .bind (hx a List.mem_cons_self g hg .refl) fun g₁ _ hchanges hg₁ => ?_
    exact ih hg₁ fun b hb g₂ hg₂ hchanges' =>
      hx b (List.mem_cons_of_mem _ hb) g₂ hg₂ (hchanges.trans hchanges')

/-- What holds of a result and stays holds of all results. -/
theorem mapM {as : List α} {x : α → GraphM β} {q : α → List Requirement} (hg : g.Declares heads)
    (hQ : ∀ {g₁ g₂ b}, Changes g₁ g₂ → Q g₁ b → Q g₂ b)
    (hx : ∀ a ∈ as, ∀ g₁, g₁.Declares heads →
      Meets heads (q a) g₁ (x a) fun g' b => g'.Declares heads ∧ Q g' b) :
    Meets heads (as.flatMap q) g (as.mapM x) fun g' bs => g'.Declares heads ∧ ∀ b ∈ bs, Q g' b := by
  induction as generalizing g with
  | nil => exact .pure ⟨hg, by simp⟩
  | cons a as ih =>
    rw [List.mapM_cons, List.flatMap_cons]
    refine .bind (hx a List.mem_cons_self g hg) fun g₁ b _ hb => ?_
    refine .andThen (ih hb.1 fun a' ha' => hx a' (List.mem_cons_of_mem _ ha')) ?_
    intro g₂ bs hchanges hbs
    refine .pure ⟨hbs.1, fun b' hb' => ?_⟩
    rcases List.mem_cons.mp hb' with rfl | hb'
    · exact hQ hchanges hb.2
    · exact hbs.2 b' hb'

end Meets

/-! ## Resolving -/

theorem require_meets (hg : g.Declares heads) (name : String) :
    Meets heads [.declared name] g (require name) fun g' ty =>
      g'.Declares heads ∧ g'.lookup name = some ty := by
  rw [Meets, Requirement.firstError?_singleton]
  have hrel := hg.lookup name
  cases hl : g.lookup name with
  | none =>
    rw [hl] at hrel
    cases hfirst : TypeHead.first? heads name with
    | some h => rw [hfirst] at hrel; cases hrel
    | none =>
      refine ⟨.error (.unresolvedType name), g, ?_, .inl ⟨_, ?_, rfl⟩⟩
      · rw [require, run_get_bind, hl]
        rfl
      · exact Requirement.error?_of_first?_none (q := .declared name) hfirst
  | some ty =>
    rw [hl] at hrel
    cases hfirst : TypeHead.first? heads name with
    | none => rw [hfirst] at hrel; cases hrel
    | some h =>
      refine ⟨.ok ty, g, require_run hl, .inr ⟨?_, ty, rfl, .refl, hg, hl⟩⟩
      exact Requirement.error?_of_first? (q := .declared name) hfirst

/-- Constructing a type from an issued one has an outcome. -/
theorem construct_answers (hg : Consistent g) {type : TypeId} (htype : g.Issued type)
    (as : List TypeId) : Answers ((construct type as).run g) := by
  obtain ⟨d, hd, hissued⟩ := definition?_yields hg htype
  obtain ⟨arity, ha, _⟩ := arity?_answers hg hissued
  obtain ⟨name, hname, _⟩ := metadataName?_answers hg hissued
  rw [construct, run_get_bind, run_lift_bind, hd, Option.bind_some, run_lift_bind, ha,
    Option.bind_some]
  by_cases hn : arity = as.length
  · rw [if_neg (by simpa using hn)]
    cases g.constructions.lookup (d, as) with
    | some ty => exact ⟨_, rfl, trivial⟩
    | none => exact ⟨_, rfl, trivial⟩
  · rw [if_pos hn, hname]
    exact ⟨_, rfl, trivial⟩

/-- The array type of an issued type has an outcome. -/
theorem arrayOf_answers {element : TypeId} (helement : g.Issued element) :
    Answers ((arrayOf element).run g) := by
  obtain ⟨s, hs⟩ := issued_iff_symbol?.mp helement
  rw [arrayOf, run_get_bind]
  cases g.arrays.lookup element with
  | some ty => exact ⟨_, rfl, trivial⟩
  | none =>
    change Answers ((liftM (g.symbol? element) >>= _ : GraphM TypeId).run g)
    rw [run_lift_bind, hs]
    exact ⟨_, rfl, trivial⟩

private theorem construct_meets (hg : g.Declares heads) {name : String} {d : TypeId}
    {as : List TypeId}
    (hd : g.lookup name = some d) (has : ∀ a ∈ as, g.Issued a) :
    Meets heads [.arity name as.length] g (construct d as) fun g' ty =>
      g'.Declares heads ∧ g'.Issued ty := by
  rw [Meets, Requirement.firstError?_singleton]
  have hrel := hg.lookup name
  rw [hd] at hrel
  generalize hfirst : TypeHead.first? heads name = first at hrel
  cases hrel with
  | @some _ h hf =>
    have hissued : g.Issued d := issued_iff_form?.mpr ⟨_, hf⟩
    have herror := Requirement.error?_of_first? (q := .arity name as.length) hfirst
    obtain ⟨⟨r, g'⟩, hrun, _⟩ := construct_answers hg.consistent hissued as
    obtain ⟨hinternings, hresult⟩ := construct_internings hg.coherent hissued has hrun
    have hg' := hg.kept hinternings.changes (Internings.tables hinternings).2.1
    obtain ⟨d', arity, hd', ha, hcases⟩ := construct_cases hrun
    cases (hg.coherent.definition?_of_lookup hd).symm.trans hd'
    have harity : arity = h.arity := by
      rw [arity?, head?_of_declared hf] at ha
      exact (Option.some.inj ha).symm
    subst harity
    refine ⟨r, g', hrun, ?_⟩
    rcases hcases with ⟨name', hn, hname, rfl, _⟩ | ⟨ty, hn, _, rfl, _⟩ | ⟨hn, _, rfl, _⟩
    · cases (metadataName?_of_lookup hg.coherent hd).symm.trans hname
      exact .inl ⟨_, by simp [herror, Requirement.conflict?, hn], rfl⟩
    · refine .inr ⟨by simp [herror, Requirement.conflict?, hn], ty, rfl, hinternings.changes, ?_⟩
      exact ⟨hg', hresult ty rfl⟩
    · refine .inr ⟨by simp [herror, Requirement.conflict?, hn], _, rfl, hinternings.changes, ?_⟩
      exact ⟨hg', hresult _ rfl⟩

private theorem arrayOf_meets (hg : g.Declares heads) {element : TypeId}
    (helement : g.Issued element) :
    Meets heads [] g (arrayOf element) fun g' ty => g'.Declares heads ∧ g'.Issued ty := by
  obtain ⟨⟨r, g'⟩, hrun, _⟩ := arrayOf_answers helement
  obtain ⟨hinternings, hresult⟩ := arrayOf_internings hg.coherent helement hrun
  have hg' := hg.kept hinternings.changes (Internings.tables hinternings).2.1
  rcases arrayOf_cases hrun with ⟨ty, _, rfl, _⟩ | ⟨_, rfl, _⟩
  · exact .ok hrun hinternings.changes ⟨hg', hresult ty rfl⟩
  · exact .ok hrun hinternings.changes ⟨hg', hresult _ rfl⟩

mutual

/-- Resolving a reference fails with the error of what it asks first and does not get. -/
theorem resolve_meets {heads : List TypeHead} : ∀ (ref : TypeRef) {g : TypeGraph},
    g.Declares heads → Meets heads ref.requirements g ref.resolve fun g' ty =>
      g'.Declares heads ∧ g'.Issued ty
  | .named name, g, hg => by
    rw [TypeRef.requirements, TypeRef.resolve]
    refine (require_meets hg name).mono fun g' ty h => ⟨h.1, ?_⟩
    exact h.1.consistent.issued_of_lookup h.2
  | .generic definition arguments, g, hg => by
    rw [TypeRef.requirements, TypeRef.resolve]
    refine (require_meets hg definition).bind fun g₁ d _ hd => ?_
    refine .bind (resolveAll_meets arguments hd.1) fun g₂ as hchanges has => ?_
    rw [← has.2.2]
    exact construct_meets has.1 (hchanges.lookup_kept hd.2) has.2.1
  | .array element, g, hg => by
    rw [TypeRef.requirements, TypeRef.resolve]
    exact .andThen (resolve_meets element hg) fun g₁ e _ he => arrayOf_meets he.1 he.2

private theorem resolveAll_meets {heads : List TypeHead} : ∀ (refs : List TypeRef) {g : TypeGraph},
    g.Declares heads →
      Meets heads (TypeRef.allRequirements refs) g (TypeRef.resolveAll refs) fun g' tys =>
        g'.Declares heads ∧ (∀ ty ∈ tys, g'.Issued ty) ∧ tys.length = refs.length
  | [], g, hg => by
    rw [TypeRef.allRequirements, TypeRef.resolveAll]
    exact .pure ⟨hg, by simp, rfl⟩
  | ref :: refs, g, hg => by
    rw [TypeRef.allRequirements, TypeRef.resolveAll]
    refine .bind (resolve_meets ref hg) fun g₁ ty _ hty => ?_
    refine .andThen (resolveAll_meets refs hty.1) fun g₂ tys hchanges htys => .pure ?_
    refine ⟨htys.1, fun x hx => ?_, congrArg Nat.succ htys.2.2⟩
    rcases List.mem_cons.mp hx with rfl | hx
    · exact hchanges.issued hty.2
    · exact htys.2.1 x hx

end

end TypeGraph

end HubBindings
