import HubBindings.Proofs.Rendering.Correspondence
import HubBindings.Proofs.Rendering.Trace
import HubBindings.Proofs.TypeGraph.Renaming

/-!
Rendering a type of one graph and the type that it is renamed to in another.

* `Paired x y`: the renderings `x` and `y` end in the same way and note the same, up to renaming;
* `Embedding.renderAt?`: so do the renderings of renamed types, at any position and by any rules.

Both renderings have a result: what a type is made up of has smaller addresses than the type, so
there is room enough for all of it.
-/

namespace HubBindings

open Sequencing TypeGraph RenderM

variable {g g' : TypeGraph} {f : TypeId → TypeId} {k : MethodId → MethodId} {w w' : WellKnown}

/-! ## Well-known types -/

/-- Well-known types and those they are renamed to. -/
structure WellKnown.Renamed (g : TypeGraph) (f : TypeId → TypeId) (w w' : WellKnown) : Prop where
  task : Option.Rel (g.Renamed f) w.task w'.task
  genericTask : Option.Rel (g.Renamed f) w.genericTask w'.genericTask
  asyncEnumerable : Option.Rel (g.Renamed f) w.asyncEnumerable w'.asyncEnumerable
  channelReader : Option.Rel (g.Renamed f) w.channelReader w'.channelReader
  cancellationToken : Option.Rel (g.Renamed f) w.cancellationToken w'.cancellationToken
  hubMarker : g.Renamed f w.hubMarker w'.hubMarker
  receiverMarker : g.Renamed f w.receiverMarker w'.receiverMarker
  dataTypeMarker : g.Renamed f w.dataTypeMarker w'.dataTypeMarker

/-! ## Notes -/

/-- The same wrappers, and data types that are renamed. -/
structure References.Renamed (g : TypeGraph) (f : TypeId → TypeId) (r r' : References) : Prop where
  wrappers : r'.wrappers = r.wrappers
  issued : ∀ d ∈ r.dataTypes, g.Issued d
  dataTypes : ∀ d', d' ∈ r'.dataTypes ↔ ∃ d ∈ r.dataTypes, f d = d'

namespace References.Renamed

variable {r r' s s' : References}

theorem empty : References.Renamed g f {} {} := ⟨rfl, by simp, by simp⟩

theorem note (h : References.Renamed g f r r') {n n' : Note} (hn : Note.Rel (g.Renamed f) n n') :
    References.Renamed g f (r.note n) (r'.note n') := by
  cases hn with
  | wrapper x => exact ⟨congrArg (Ascending.insert x) h.wrappers, h.issued, h.dataTypes⟩
  | dataType hd =>
    refine ⟨h.wrappers, fun x hx => ?_, fun x => ?_⟩
    · rcases Ascending.mem_insert.mp hx with rfl | hx
      · exact hd.1
      · exact h.issued x hx
    · simp only [References.note, References.addDataType, Ascending.mem_insert, h.dataTypes]
      rw [← hd.2]
      simp [eq_comm]

theorem noteAll {ns ns' : List Note} (hns : List.Forall₂ (Note.Rel (g.Renamed f)) ns ns')
    (h : References.Renamed g f r r') :
    References.Renamed g f (r.noteAll ns) (r'.noteAll ns') := by
  induction hns generalizing r r' with
  | nil => exact h
  | cons hn _ ih => exact ih (h.note hn)

theorem union (h : References.Renamed g f r r') (hs : References.Renamed g f s s') :
    References.Renamed g f (r.union s) (r'.union s') := by
  refine ⟨?_, fun x hx => ?_, fun x => ?_⟩
  · simp only [References.union, h.wrappers, hs.wrappers]
  · rcases Ascending.mem_insertAll.mp hx with hx | hx
    · exact hs.issued x hx
    · exact h.issued x hx
  · simp only [References.union, Ascending.mem_insertAll, h.dataTypes, hs.dataTypes]
    constructor
    · rintro (⟨d, hd, e⟩ | ⟨d, hd, e⟩)
      · exact ⟨d, .inl hd, e⟩
      · exact ⟨d, .inr hd, e⟩
    · rintro ⟨d, hd | hd, e⟩
      · exact .inl ⟨d, hd, e⟩
      · exact .inr ⟨d, hd, e⟩

end References.Renamed

/-! ## Renderings side by side -/

namespace RenderM

variable {α β : Type}

/-- From any position and renamed notes, both renderings end in the same way with renamed notes. -/
def Paired (g : TypeGraph) (f : TypeId → TypeId) (x y : RenderM α) : Prop :=
  ∀ p r r', References.Renamed g f r r' → ∃ v s s', x.run ⟨p, r⟩ = some (v, ⟨p, s⟩) ∧
    y.run ⟨p, r'⟩ = some (v, ⟨p, s'⟩) ∧ References.Renamed g f s s'

theorem Paired.pure (a : α) : Paired g f (pure a) (pure a) :=
  fun _ r r' h => ⟨.ok a, r, r', rfl, rfl, h⟩

theorem Paired.throw (e : RenderError) : Paired g f (throw e : RenderM α) (throw e) :=
  fun _ r r' h => ⟨.error e, r, r', rfl, rfl, h⟩

theorem Paired.bind {x y : RenderM α} {l m : α → RenderM β} (hxy : Paired g f x y)
    (hlm : ∀ a, Paired g f (l a) (m a)) : Paired g f (x >>= l) (y >>= m) := by
  intro p r r' h
  obtain ⟨v, s, s', hx, hy, hs⟩ := hxy p r r' h
  cases v with
  | error e =>
    refine ⟨.error e, s, s', ?_, ?_, hs⟩
    · exact run_bind_iff.mpr (.inl ⟨e, hx, rfl⟩)
    · exact run_bind_iff.mpr (.inl ⟨e, hy, rfl⟩)
  | ok a =>
    obtain ⟨v, u, u', hl, hm, hu⟩ := hlm a p s s' hs
    refine ⟨v, u, u', ?_, ?_, hu⟩
    · exact run_bind_iff.mpr (.inr ⟨a, _, hx, hl⟩)
    · exact run_bind_iff.mpr (.inr ⟨a, _, hy, hm⟩)

theorem Paired.lift_bind {γ : Type} {R : α → γ → Prop} {o : Option α} {o' : Option γ}
    {l : α → RenderM β} {m : γ → RenderM β} (ho : Both R o o')
    (hlm : ∀ a a', R a a' → Paired g f (l a) (m a')) :
    Paired g f (liftM o >>= l) (liftM o' >>= m) := by
  obtain ⟨a, a', rfl, rfl, ha⟩ := ho
  exact hlm a a' ha

theorem Paired.get_bind {l m : Context → RenderM β}
    (h : ∀ p r r', References.Renamed g f r r' → Paired g f (l ⟨p, r⟩) (m ⟨p, r'⟩)) :
    Paired g f (get >>= l) (get >>= m) :=
  fun p r r' hr => h p r r' hr p r r' hr

theorem Paired.nested {x y : RenderM α} (h : Paired g f x y) :
    Paired g f (nested x) (nested y) := by
  intro p r r' hr
  obtain ⟨v, s, s', hx, hy, hs⟩ := h .nested r r' hr
  refine ⟨v, s, s', ?_, ?_, hs⟩
  · rw [run_nested, hx, Option.map_some]
  · rw [run_nested, hy, Option.map_some]

theorem Paired.noteAll {ns ns' : List Note} (h : List.Forall₂ (Note.Rel (g.Renamed f)) ns ns') :
    Paired g f (noteAll ns) (noteAll ns') :=
  fun _ r r' hr => ⟨.ok (), r.noteAll ns, r'.noteAll ns', rfl, rfl, hr.noteAll h⟩

theorem Paired.mapM {γ : Type} {R : α → γ → Prop} {l : α → RenderM β} {m : γ → RenderM β}
    {as : List α} {as' : List γ} (has : List.Forall₂ R as as')
    (hlm : ∀ a a', R a a' → Paired g f (l a) (m a')) : Paired g f (as.mapM l) (as'.mapM m) := by
  induction has with
  | nil => exact .pure []
  | cons ha _ ih =>
    rw [List.mapM_cons, List.mapM_cons]
    exact .bind (hlm _ _ ha) fun _ => .bind ih fun _ => .pure _

/-- Corresponding plans have paired renderings if their parts have. -/
theorem Paired.run {render render' : TypeId → RenderM String} {R : TypeId → TypeId → Prop}
    {plan plan' : Plan} (hplan : Plan.Rel (g.Renamed f) R plan plan')
    (h : ∀ a a', R a a' → Paired g f (render a) (render' a')) :
    Paired g f (plan.run render) (plan'.run render') := by
  cases hplan with
  | fail e => exact .throw e
  | write s hnotes hparts =>
    refine .bind (.noteAll hnotes) fun _ => .bind (.mapM hparts ?_) fun _ => .pure _
    rintro _ _ ⟨inside, ha⟩
    cases inside with
    | true => exact .nested (h _ _ ha)
    | false => exact h _ _ ha

end RenderM

namespace TypeGraph.Embedding

variable (t : Embedding g g' f k) {ty ty' : TypeId}
include t

theorem isTask (hw : WellKnown.Renamed g f w w') (h : g.Renamed f ty ty') :
    w.isTask ty = w'.isTask ty' :=
  decide_eq_decide.mpr (t.eq_some_iff hw.task h)

theorem isCancellationToken (hw : WellKnown.Renamed g f w w') (h : g.Renamed f ty ty') :
    w.isCancellationToken ty = w'.isCancellationToken ty' :=
  decide_eq_decide.mpr (t.eq_some_iff hw.cancellationToken h)

theorem isGenericTask? (hw : WellKnown.Renamed g f w w') (h : g.Renamed f ty ty') :
    Both Eq (w.isGenericTask? g ty) (w'.isGenericTask? g' ty') :=
  t.isConstructedFrom? h hw.genericTask

theorem isStream? (hw : WellKnown.Renamed g f w w') (h : g.Renamed f ty ty') :
    Both Eq (w.isStream? g ty) (w'.isStream? g' ty') := by
  refine .bind (t.isConstructedFrom? h hw.asyncEnumerable) fun b b' hb => ?_
  subst hb
  cases b with
  | true => exact .some rfl
  | false => exact t.isConstructedFrom? h hw.channelReader

theorem refuse (h : g.Renamed f ty ty') : Paired g f (refuse g ty) (refuse g' ty') :=
  .lift_bind (t.display? h) fun _ _ hd => hd ▸ .throw _

end TypeGraph.Embedding

/-! ## Rules -/

theorem TypeGraph.RenamedPart.trans {ty ty' a a' b b' : TypeId} (h : RenamedPart g f ty ty' a a')
    (h' : RenamedPart g f a a' b b') : RenamedPart g f ty ty' b b' :=
  ⟨h'.renamed, Nat.lt_trans h'.lt h.lt, Nat.lt_trans h'.lt' h.lt'⟩

namespace TypeGraph.Embedding

variable (t : Embedding g g' f k) (hw : WellKnown.Renamed g f w w') {ty ty' : TypeId}
include t hw

/-- Renamed types have corresponding answers to what rules ask. -/
theorem correspondence : Correspondence g g' w w' (g.Renamed f) (RenamedPart g f) where
  name? := t.name?
  metadataName? := t.metadataName?
  display? := t.display?
  definition? := t.definition?
  element? := t.element?
  arguments? := t.arguments?
  isTask := t.isTask hw
  isGenericTask? := t.isGenericTask? hw
  isStream? := t.isStream? hw
  isMarked? h := t.hasAttribute? h hw.dataTypeMarker
  whole h := h.renamed
  trans h h' := h.trans h'

private theorem applyRule (h : g.Renamed f ty ty') {render render' : TypeId → RenderM String}
    (hrender : ∀ a a', RenamedPart g f ty ty' a a' → Paired g f (render a) (render' a'))
    (rule : Rule) : Paired g f (rule.apply g w render ty) (rule.apply g' w' render' ty') := by
  rw [Rule.apply_eq, Rule.apply_eq]
  refine .get_bind fun p r r' _ => ?_
  exact .lift_bind ((t.correspondence hw).plan? h rule p) fun _ _ hplan => .run hplan hrender

/-- There is room for a rendering if there is more of it than there are addresses below the type. -/
theorem renderWithin (rules : List Rule) {room room' : Nat} (h : g.Renamed f ty ty')
    (hroom : ty.index < room) (hroom' : ty'.index < room') :
    Paired g f (renderWithin g w rules room ty) (renderWithin g' w' rules room' ty') := by
  induction room generalizing room' ty ty' with
  | zero => exact absurd hroom (Nat.not_lt_zero _)
  | succ room ih =>
    obtain ⟨room', rfl⟩ := Nat.exists_eq_succ_of_ne_zero (Nat.ne_zero_of_lt hroom')
    refine .lift_bind ((t.correspondence hw).find? h rules) fun found found' hfound => ?_
    subst hfound
    cases found with
    | none => exact t.refuse h
    | some rule =>
      refine t.applyRule hw h (fun a a' ha => ?_) rule
      exact ih ha.renamed (Nat.lt_of_lt_of_le ha.lt (Nat.le_of_lt_succ hroom))
        (Nat.lt_of_lt_of_le ha.lt' (Nat.le_of_lt_succ hroom'))

/-- Renamed types have the same rendering, and it refers to the same, up to renaming. -/
theorem renderAt? (rules : List Rule) (position : Position) (h : g.Renamed f ty ty') :
    Both (Agree fun r r' => r'.text = r.text ∧ References.Renamed g f r.references r'.references)
      (renderAt? g w rules position ty) (renderAt? g' w' rules position ty') := by
  obtain ⟨v, s, s', hrun, hrun', hs⟩ :=
    t.renderWithin hw rules h h.1 (h.2 ▸ t.issued h.1) position {} {} .empty
  refine ⟨_, _, congrArg _ hrun, congrArg _ hrun', ?_⟩
  cases v with
  | error e => exact .error e
  | ok text => exact .ok ⟨rfl, hs⟩

end TypeGraph.Embedding

end HubBindings
