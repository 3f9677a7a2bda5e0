import HubBindings.Proofs.Rendering.Trace

/-!
What the rendering of a type refers to, said without the rendering. A type mentions what the rule in
charge of it notes, and what the types mention that this rule goes down to (`Mentions`).
`renderAt?_mentions` says that a rendering that succeeds has noted exactly this.
-/

namespace HubBindings

/-- What a type refers to where it stands. -/
inductive Mentions (g : TypeGraph) (w : WellKnown) (rules : List Rule) :
    Position → TypeId → Note → Prop
  | here {p : Position} {ty : TypeId} {n : Note} {rule : Rule} :
      Rule.find? g w rules ty = some (some rule) → rule.Notes g w p ty n →
        Mentions g w rules p ty n
  | inside {p p' : Position} {ty a : TypeId} {n : Note} {rule : Rule} :
      Rule.find? g w rules ty = some (some rule) → rule.Descends g w p ty p' a →
        Mentions g w rules p' a n → Mentions g w rules p ty n

variable {g : TypeGraph} {w : WellKnown} {rules : List Rule} {p : Position} {ty : TypeId}

private theorem mentions_iff {rule : Rule} (hfind : Rule.find? g w rules ty = some (some rule))
    {n : Note} : Mentions g w rules p ty n ↔
      rule.Notes g w p ty n ∨ ∃ p' a, rule.Descends g w p ty p' a ∧ Mentions g w rules p' a n := by
  constructor
  · intro h
    cases h with
    | here hfind' hnotes =>
      cases hfind.symm.trans hfind'
      exact .inl hnotes
    | inside hfind' hdescends h =>
      cases hfind.symm.trans hfind'
      exact .inr ⟨_, _, hdescends, h⟩
  · rintro (hnotes | ⟨p', a, hdescends, h⟩)
    · exact .here hfind hnotes
    · exact .inside hfind hdescends h

/-! ## What renderings leave behind -/

namespace RenderM

open Sequencing

variable {α β : Type} {S T : Note → Prop}

/-- If `x` succeeds at position `p`, it has noted exactly `S`. -/
def Leaves (S : Note → Prop) (p : Position) (x : RenderM α) : Prop :=
  ∀ refs a c', x.run ⟨p, refs⟩ = some (.ok a, c') →
    ∃ ns, c' = ⟨p, refs.noteAll ns⟩ ∧ ∀ n, n ∈ ns ↔ S n

theorem Leaves.congr {x : RenderM α} (h : Leaves S p x) (hST : ∀ n, S n ↔ T n) :
    Leaves T p x := by
  intro refs a c' hrun
  obtain ⟨ns, hc', hns⟩ := h refs a c' hrun
  exact ⟨ns, hc', fun n => (hns n).trans (hST n)⟩

theorem Leaves.pure (a : α) : Leaves (fun _ => False) p (pure a : RenderM α) := by
  intro refs a' c' hrun
  cases hrun
  exact ⟨[], rfl, by simp⟩

theorem Leaves.throw (e : RenderError) : Leaves S p (throw e : RenderM α) := by
  intro refs a c' hrun
  cases hrun

theorem Leaves.bind {x : RenderM α} {k : α → RenderM β} (hx : Leaves S p x)
    (hk : ∀ a, Leaves T p (k a)) : Leaves (fun n => S n ∨ T n) p (x >>= k) := by
  intro refs b c' hrun
  rcases run_bind_iff.mp hrun with ⟨e, _, he⟩ | ⟨a, c₁, hrunx, hrunk⟩
  · cases he
  · obtain ⟨ns, rfl, hns⟩ := hx refs a c₁ hrunx
    obtain ⟨ms, rfl, hms⟩ := hk a _ b c' hrunk
    refine ⟨ns ++ ms, by rw [References.noteAll_append], fun n => ?_⟩
    rw [List.mem_append, hns, hms]

theorem Leaves.map {x : RenderM α} (hx : Leaves S p x) (f : α → β) :
    Leaves S p (x >>= fun a => Pure.pure (f a)) :=
  (hx.bind fun _ => .pure _).congr fun _ => iff_of_eq (or_false _)

theorem Leaves.lift_bind {o : Option α} {k : α → RenderM β}
    (h : ∀ a, o = some a → Leaves S p (k a)) : Leaves S p (liftM o >>= k) := by
  cases o with
  | none => intro refs b c' hrun; cases hrun
  | some a => exact h a rfl

theorem Leaves.get_bind {k : Context → RenderM β} (h : ∀ refs, Leaves S p (k ⟨p, refs⟩)) :
    Leaves S p (get >>= k) := by
  intro refs b c' hrun
  rw [run_get_bind] at hrun
  exact h refs refs b c' hrun

theorem Leaves.nested {x : RenderM α} (h : Leaves S .nested x) : Leaves S p (nested x) := by
  intro refs a c' hrun
  rw [run_nested] at hrun
  obtain ⟨⟨r, c₁⟩, hx, e⟩ := Option.map_eq_some_iff.mp hrun
  cases e
  obtain ⟨ns, rfl, hns⟩ := h refs a c₁ hx
  exact ⟨ns, rfl, hns⟩

theorem Leaves.noteAll (ns : List Note) : Leaves (· ∈ ns) p (noteAll ns) := by
  intro refs a c' hrun
  cases hrun
  exact ⟨ns, rfl, fun _ => Iff.rfl⟩

theorem Leaves.refuse : Leaves S p (refuse g ty) := .lift_bind fun _ _ => .throw _

theorem Leaves.mapM {R : α → Note → Prop} {f : α → RenderM β} (h : ∀ a, Leaves (R a) p (f a))
    (as : List α) : Leaves (fun n => ∃ a ∈ as, R a n) p (as.mapM f) := by
  induction as with
  | nil => exact (Leaves.pure []).congr fun n => by simp
  | cons a as ih =>
    rw [List.mapM_cons]
    refine ((h a).bind fun _ => ih.map _).congr fun n => ?_
    simp

end RenderM

open RenderM

theorem Part.render_leaves {render : TypeId → RenderM String} {S : Position → TypeId → Note → Prop}
    (h : ∀ p a, Leaves (S p a) p (render a)) (part : Part) :
    Leaves (S (part.position p) part.type) p (part.render render) := by
  obtain ⟨a, inside⟩ := part
  cases inside with
  | true => exact (h .nested a).nested
  | false => exact h p a

/-- A rule leaves behind what it notes about the type itself and what is left behind below. -/
theorem Rule.apply_leaves {render : TypeId → RenderM String} {S : Position → TypeId → Note → Prop}
    (h : ∀ p a, Leaves (S p a) p (render a)) (rule : Rule) :
    Leaves (fun n => rule.Notes g w p ty n ∨ ∃ p' a, rule.Descends g w p ty p' a ∧ S p' a n) p
      (rule.apply g w render ty) := by
  rw [Rule.apply_eq]
  refine .get_bind fun _ => .lift_bind fun plan hplan => ?_
  have hdoes := Rule.plan?_does hplan
  cases plan with
  | fail e => exact .throw e
  | write notes parts text =>
    refine ((Leaves.noteAll notes).bind fun _ =>
      (Leaves.mapM (Part.render_leaves h) parts).map _).congr fun n => ?_
    simp only [hdoes.1, ← hdoes.2]
    constructor
    · rintro (hn | ⟨part, hpart, hn⟩)
      · exact .inl hn
      · exact .inr ⟨_, _, ⟨part, hpart, rfl, rfl⟩, hn⟩
    · rintro (hn | ⟨_, _, ⟨part, hpart, rfl, rfl⟩, hn⟩)
      · exact .inl hn
      · exact .inr ⟨part, hpart, hn⟩

private theorem renderWithin_leaves (room : Nat) (ty : TypeId) (p : Position) :
    Leaves (Mentions g w rules p ty) p (renderWithin g w rules room ty) := by
  induction room generalizing ty p with
  | zero => intro refs a c' hrun; cases hrun
  | succ room ih =>
    refine .lift_bind fun found hfound => ?_
    cases found with
    | none => exact .refuse
    | some rule =>
      refine (rule.apply_leaves fun p a => ih a p).congr fun n => ?_
      exact (mentions_iff hfound).symm

/-- A rendering that succeeds refers to exactly what its type mentions. -/
theorem renderAt?_mentions {r : Rendered} (h : renderAt? g w rules p ty = some (.ok r)) (n : Note) :
    r.references.Holds n ↔ Mentions g w rules p ty n := by
  obtain ⟨⟨v, c'⟩, hrun, hv⟩ := Option.map_eq_some_iff.mp h
  cases v with
  | error e => cases hv
  | ok text =>
    cases hv
    obtain ⟨ns, rfl, hns⟩ := renderWithin_leaves g.typeCount ty p {} text c' hrun
    rw [References.holds_noteAll, hns]
    exact or_iff_right References.not_holds_empty

end HubBindings
