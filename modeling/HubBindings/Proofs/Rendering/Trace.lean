import HubBindings.Proofs.Ascending
import HubBindings.Proofs.Rendering.Plan

/-!
What a rendering depends on and what it leaves behind.

* `Traces x p r ns`: at position `p` the rendering `x` ends with `r` and notes `ns`, whatever was
  noted before;
* `renderWithin_uniform`: every rendering is of this kind, and the wrapper of streams that the
  caller consumes is noted only where a hub returns;
* `Rule.apply_congr`: a rule keeps every relation between renderings that is a `Congruence`;
* `renderWithin_extends`: more room does not change a result.

What is said about rules here is shown for plans that are carried out.
-/

namespace HubBindings

namespace References

instance : Std.LawfulEqOrd Wrapper where
  compare_self {a} := by cases a <;> rfl
  eq_of_compare {a b} := by cases a <;> cases b <;> decide

instance : Std.TransOrd Wrapper := inferInstanceAs (Std.TransCmp (compareOn Wrapper.rank))

instance : Std.LawfulEqOrd TypeId where
  compare_self {a} := show compare a.index a.index = .eq from Std.ReflCmp.compare_self
  eq_of_compare {a b} h := by
    cases a
    cases b
    exact congrArg TypeId.mk (Std.LawfulEqOrd.eq_of_compare h)

/-- Whether something is noted. -/
def Holds (r : References) : Note → Prop
  | .wrapper x => x ∈ r.wrappers
  | .dataType d => d ∈ r.dataTypes

theorem not_holds_empty {n : Note} : ¬ ({} : References).Holds n := by cases n <;> simp [Holds]

private theorem holds_note {r : References} {m n : Note} :
    (r.note m).Holds n ↔ r.Holds n ∨ n = m := by
  cases m <;> cases n <;>
    simp [note, addWrapper, addDataType, Holds, Ascending.mem_insert, or_comm]

theorem holds_noteAll {r : References} {ns : List Note} {n : Note} :
    (r.noteAll ns).Holds n ↔ r.Holds n ∨ n ∈ ns := by
  induction ns generalizing r with
  | nil => simp
  | cons m ns ih =>
    have hcons : r.noteAll (m :: ns) = (r.note m).noteAll ns := rfl
    rw [hcons, ih, holds_note, List.mem_cons, or_assoc]

theorem holds_union {r s : References} {n : Note} :
    (r.union s).Holds n ↔ r.Holds n ∨ s.Holds n := by
  cases n <;> simp [union, Holds, Ascending.mem_insertAll, or_comm]

theorem mem_wrappers_noteAll {x : Wrapper} {r : References} {ns : List Note} :
    x ∈ (r.noteAll ns).wrappers ↔ x ∈ r.wrappers ∨ .wrapper x ∈ ns :=
  holds_noteAll (n := .wrapper x)

end References

namespace RenderM

open Sequencing

variable {α β : Type} {g : TypeGraph} {w : WellKnown} {P : Note → Prop} {p : Position}

def Traces (x : RenderM α) (p : Position) (r : Except RenderError α) (ns : List Note) : Prop :=
  ∀ refs, x.run ⟨p, refs⟩ = some (r, ⟨p, refs.noteAll ns⟩)

/-- At position `p` the rendering has no result, or one that does not depend on what was noted
before; all it notes satisfies `P`. -/
def Uniform (P : Note → Prop) (p : Position) (x : RenderM α) : Prop :=
  (∀ refs, x.run ⟨p, refs⟩ = none) ∨ ∃ r ns, Traces x p r ns ∧ ∀ n ∈ ns, P n

theorem run_nested (x : RenderM α) (c : Context) :
    (nested x).run c = (x.run { c with position := .nested }).map fun (r, c') =>
      (r, { c' with position := c.position }) := rfl

/-- What a rendering adds to the wrappers satisfies `P`, and what was noted before stays. -/
theorem Uniform.mem_wrappers {x : RenderM α} (h : Uniform P p x) {refs : References}
    {r : Except RenderError α} {c' : Context} (hrun : x.run ⟨p, refs⟩ = some (r, c'))
    (y : Wrapper) :
    (y ∈ refs.wrappers → y ∈ c'.references.wrappers) ∧
      (y ∈ c'.references.wrappers → y ∈ refs.wrappers ∨ P (.wrapper y)) := by
  rcases h with h | ⟨r, ns, ht, hns⟩
  · rw [h] at hrun
    cases hrun
  · rw [ht] at hrun
    cases hrun
    rw [References.mem_wrappers_noteAll]
    exact ⟨.inl, fun hy => hy.imp_right (hns _)⟩

theorem Uniform.mono {Q : Note → Prop} {x : RenderM α} (h : Uniform P p x) (hPQ : ∀ n, P n → Q n) :
    Uniform Q p x := by
  rcases h with h | ⟨r, ns, ht, hn⟩
  · exact .inl h
  · exact .inr ⟨r, ns, ht, fun n hmem => hPQ n (hn n hmem)⟩

theorem Uniform.pure (a : α) : Uniform P p (pure a : RenderM α) :=
  .inr ⟨.ok a, [], fun _ => rfl, by simp⟩

theorem Uniform.throw (e : RenderError) : Uniform P p (throw e : RenderM α) :=
  .inr ⟨.error e, [], fun _ => rfl, by simp⟩

theorem Uniform.bind {x : RenderM α} {k : α → RenderM β} (hx : Uniform P p x)
    (hk : ∀ a, Uniform P p (k a)) : Uniform P p (x >>= k) := by
  rcases hx with hx | ⟨r, ns, hx, hns⟩
  · refine .inl fun refs => ?_
    rw [run_bind, hx]
    rfl
  · cases r with
    | error e =>
      refine .inr ⟨.error e, ns, fun refs => ?_, hns⟩
      rw [run_bind, hx]
      rfl
    | ok a =>
      rcases hk a with hk | ⟨r, ms, hk, hms⟩
      · refine .inl fun refs => ?_
        rw [run_bind, hx]
        exact hk _
      · refine .inr ⟨r, ns ++ ms, fun refs => ?_, ?_⟩
        · rw [run_bind, hx, References.noteAll_append]
          exact hk _
        · intro n hn
          rcases List.mem_append.mp hn with hn | hn
          · exact hns n hn
          · exact hms n hn

theorem Uniform.lift_bind {o : Option α} {k : α → RenderM β}
    (h : ∀ a, o = some a → Uniform P p (k a)) : Uniform P p (liftM o >>= k) := by
  cases o with
  | none => exact .inl fun _ => rfl
  | some a => exact h a rfl

/-- What follows a look at the context may depend on the position. -/
theorem Uniform.get_bind {k : Context → RenderM β} (h : ∀ refs, k ⟨p, refs⟩ = k ⟨p, {}⟩)
    (hk : Uniform P p (k ⟨p, {}⟩)) : Uniform P p (get >>= k) := by
  have hrun : ∀ refs, (get >>= k : RenderM β).run ⟨p, refs⟩ = (k ⟨p, {}⟩).run ⟨p, refs⟩ := by
    intro refs
    rw [run_get_bind, h]
  rcases hk with hk | ⟨r, ns, hk, hns⟩
  · exact .inl fun refs => (hrun refs).trans (hk refs)
  · exact .inr ⟨r, ns, fun refs => (hrun refs).trans (hk refs), hns⟩

theorem Uniform.nested {x : RenderM α} (h : Uniform P .nested x) : Uniform P p (nested x) := by
  rcases h with h | ⟨r, ns, ht, hns⟩
  · refine .inl fun refs => ?_
    rw [run_nested]
    exact congrArg _ (h refs)
  · refine .inr ⟨r, ns, fun refs => ?_, hns⟩
    rw [run_nested]
    exact congrArg _ (ht refs)

theorem Uniform.noteAll {ns : List Note} (h : ∀ n ∈ ns, P n) : Uniform P p (noteAll ns) :=
  .inr ⟨.ok (), ns, fun _ => rfl, h⟩

theorem Uniform.refuse (ty : TypeId) : Uniform P p (refuse g ty) :=
  .lift_bind fun _ _ => .throw _

theorem Uniform.mapM {f : α → RenderM β} {as : List α} (h : ∀ a ∈ as, Uniform P p (f a)) :
    Uniform P p (as.mapM f) := by
  induction as with
  | nil => exact .pure []
  | cons a as ih =>
    rw [List.mapM_cons]
    exact .bind (h a List.mem_cons_self) fun _ =>
      .bind (ih fun b hb => h b (List.mem_cons_of_mem _ hb)) fun _ => .pure _

end RenderM

open RenderM

variable {g : TypeGraph} {w : WellKnown} {P : Note → Prop} {p : Position}

theorem Part.render_uniform {render : TypeId → RenderM String} {part : Part}
    (h : Uniform P (part.position p) (render part.type)) : Uniform P p (part.render render) := by
  obtain ⟨a, inside⟩ := part
  cases inside with
  | true => exact .nested h
  | false => exact h

/-- A rule notes what it notes about the type itself and what is noted below. -/
theorem Rule.apply_uniform {render : TypeId → RenderM String} (rule : Rule) (ty : TypeId)
    (hnotes : ∀ n, rule.Notes g w p ty n → P n)
    (h : ∀ p' a, rule.Descends g w p ty p' a → Uniform P p' (render a)) :
    Uniform P p (rule.apply g w render ty) := by
  rw [Rule.apply_eq]
  refine .get_bind (fun _ => rfl) (.lift_bind fun plan hplan => ?_)
  have hdoes := Rule.plan?_does hplan
  cases plan with
  | fail e => exact .throw e
  | write notes parts text =>
    refine .bind (.noteAll fun n hn => hnotes n ((hdoes.1 n).mp hn)) fun _ =>
      .bind (.mapM fun part hpart => part.render_uniform ?_) fun _ => .pure _
    exact h _ _ ((hdoes.2 _ _).mp ⟨part, hpart, rfl, rfl⟩)

/-- A stream that the caller consumes is noted only where a hub returns. -/
def Note.AllowedAt (p : Position) (n : Note) : Prop := n = .wrapper .streamResult → p = .hubReturn

theorem Rule.Notes.streams {rule : Rule} {ty : TypeId}
    (h : rule.Notes g w p ty (.wrapper .streamResult)) :
    p = .hubReturn ∧ rule.Streams g w ty := by
  cases rule with
  | custom rule => simp [Rule.Notes] at h
  | genericTask => exact ⟨h.1, h.2.1⟩
  | stream =>
    by_contra hno
    have hp : p ≠ .hubReturn := fun hp => hno ⟨hp, trivial⟩
    simp [Rule.Notes, hp] at h
  | dataType => simp [Rule.Notes] at h
  | override _ | task | primitive | collection => exact h.elim

theorem Rule.Descends.position {rule : Rule} {ty a : TypeId} {p' : Position}
    (h : rule.Descends g w p ty p' a) : p' = .nested ∨ p' = p ∧ ∃ r, rule = .custom r := by
  cases rule with
  | custom rule => exact h.2.imp (·.2) fun h => ⟨h.2, rule, rfl⟩
  | genericTask | stream | collection | dataType => exact .inl h.1
  | override _ | task | primitive => exact h.elim

theorem renderWithin_uniform (rules : List Rule) (room : Nat) (ty : TypeId) (p : Position) :
    Uniform (Note.AllowedAt p) p (renderWithin g w rules room ty) := by
  induction room generalizing ty p with
  | zero => exact .inl fun _ => rfl
  | succ room ih =>
    refine .lift_bind fun found _ => ?_
    cases found with
    | none => exact .refuse ty
    | some rule =>
      refine rule.apply_uniform ty (fun n hn e => (e ▸ hn).streams.1) fun p' a ha => ?_
      rcases ha.position with rfl | ⟨rfl, _⟩
      · -- what is noted inside of a type is allowed everywhere
        exact (ih a .nested).mono fun n hn e => nomatch hn e
      · exact ih a p'

/-! ## Room -/

namespace RenderM

open Sequencing

variable {α β : Type}

/-- A relation between computations that is kept by every way to put computations together. -/
structure Congruence (R : (α : Type) → RenderM α → RenderM α → Prop) : Prop where
  refl {α : Type} (x : RenderM α) : R α x x
  bind {α β : Type} {x y : RenderM α} {k l : α → RenderM β} :
    R α x y → (∀ a, R β (k a) (l a)) → R β (x >>= k) (y >>= l)
  nested {α : Type} {x y : RenderM α} : R α x y → R α (nested x) (nested y)

theorem Congruence.mapM {R : (α : Type) → RenderM α → RenderM α → Prop} (hR : Congruence R)
    {f k : α → RenderM β} (h : ∀ a, R β (f a) (k a)) (as : List α) :
    R _ (as.mapM f) (as.mapM k) := by
  induction as with
  | nil => exact hR.refl _
  | cons a as ih =>
    rw [List.mapM_cons, List.mapM_cons]
    exact hR.bind (h a) fun _ => hR.bind ih fun _ => hR.refl _

/-- Where `x` has a result, `y` has the same. -/
def Extends (x y : RenderM α) : Prop := ∀ c v, x.run c = some v → y.run c = some v

theorem Extends.congruence : Congruence fun _ => Extends where
  refl _ _ _ h := h
  bind := by
    rintro _ _ x y k l hxy hkl c ⟨r, c'⟩ h
    rcases run_bind_iff.mp h with ⟨e, hx, rfl⟩ | ⟨a, c₁, hx, hk⟩
    · exact run_bind_iff.mpr (.inl ⟨e, hxy _ _ hx, rfl⟩)
    · exact run_bind_iff.mpr (.inr ⟨a, c₁, hxy _ _ hx, hkl a _ _ hk⟩)
  nested := by
    intro _ x y h c v hv
    rw [run_nested] at hv ⊢
    obtain ⟨v', hx, e⟩ := Option.map_eq_some_iff.mp hv
    rw [h _ _ hx, Option.map_some, e]

end RenderM

section Congruence

variable {R : (α : Type) → RenderM α → RenderM α → Prop} (hR : Congruence R)
  {first second : TypeId → RenderM String} (h : ∀ a, R _ (first a) (second a))
include hR h

/-- A rule relates what it makes of related renderings. -/
theorem Rule.apply_congr (rule : Rule) (ty : TypeId) :
    R _ (rule.apply g w first ty) (rule.apply g w second ty) := by
  have hpart : ∀ part : Part, R _ (part.render first) (part.render second) := by
    rintro ⟨a, inside⟩
    cases inside with
    | true => exact hR.nested (h a)
    | false => exact h a
  rw [Rule.apply_eq, Rule.apply_eq]
  refine hR.bind (hR.refl _) fun c => hR.bind (hR.refl _) fun plan => ?_
  cases plan with
  | fail e => exact hR.refl _
  | write notes parts text =>
    exact hR.bind (hR.refl _) fun _ => hR.bind (hR.mapM hpart parts) fun _ => hR.refl _

end Congruence

theorem renderWithin_extends (rules : List Rule) {room room' : Nat} (hroom : room ≤ room')
    (ty : TypeId) : Extends (renderWithin g w rules room ty) (renderWithin g w rules room' ty) := by
  induction room generalizing room' ty with
  | zero => intro c v hv; cases hv
  | succ room ih =>
    obtain ⟨more, rfl⟩ : ∃ more, room' = more + 1 := ⟨room' - 1, by omega⟩
    refine Extends.congruence.bind (Extends.congruence.refl _) fun found => ?_
    cases found with
    | none => exact Extends.congruence.refl _
    | some rule => exact rule.apply_congr Extends.congruence (fun a => ih (by omega) a) ty

/-- The rendering of a type inside of another has the same text as its rendering on its own. -/
theorem renderAt?_of_run {rules : List Rule} {room : Nat} (hroom : room ≤ g.typeCount)
    {ty : TypeId} {refs : References} {text : String} {c' : Context}
    (h : (renderWithin g w rules room ty).run ⟨p, refs⟩ = some (.ok text, c')) :
    ∃ r, renderAt? g w rules p ty = some (.ok r) ∧ r.text = text := by
  rcases renderWithin_uniform rules room ty p with hnone | ⟨r, ns, ht, _⟩
  · rw [hnone] at h
    cases h
  · rw [ht] at h
    cases h
    have hrun := renderWithin_extends rules hroom ty _ _ (ht {})
    refine ⟨⟨text, ({} : References).noteAll ns⟩, ?_, rfl⟩
    rw [renderAt?, renderType, hrun]
    rfl

end HubBindings
