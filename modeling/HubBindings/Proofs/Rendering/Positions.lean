import HubBindings.Generator
import HubBindings.Proofs.CallShape
import HubBindings.Proofs.Rendering.Wrapped

/-!
The same result where a hub returns it and where a receiver returns it. The texts may differ, but a
result that a receiver may have has a rendering in both places or in none (`renderType_alike`),
whatever rules are put around the built-in ones.

Only the rule for tasks looks further at the results of hubs, into tasks of streams. A rule in front
of it can hand on the argument of a task without leaving the place of the result, so a task inside
of a task could meet it there. But rules in front go by metadata names: the one that took the outer
task takes the inner one as well (`find?_genericTask_of_task`).
-/

namespace HubBindings

namespace RenderM

open Sequencing

variable {α β : Type} {g : TypeGraph} {ty : TypeId}

/-- At the results of hubs `x` succeeds if `y` does so at the results of receivers. -/
def Alike (x y : RenderM α) : Prop :=
  ∀ refs refs' v v', x.run ⟨.hubReturn, refs⟩ = some v → y.run ⟨.receiverReturn, refs'⟩ = some v' →
    v.1.isOk = v'.1.isOk ∧ v.2.position = .hubReturn ∧ v'.2.position = .receiverReturn

theorem Alike.pure (a b : α) : Alike (pure a) (pure b) := by
  intro refs refs' v v' h h'
  cases h
  cases h'
  exact ⟨rfl, rfl, rfl⟩

theorem Alike.throw (e e' : RenderError) : Alike (throw e : RenderM α) (throw e') := by
  intro refs refs' v v' h h'
  cases h
  cases h'
  exact ⟨rfl, rfl, rfl⟩

theorem Alike.bind {x y : RenderM α} {k l : α → RenderM β} (hxy : Alike x y)
    (hkl : ∀ a b, Alike (k a) (l b)) : Alike (x >>= k) (y >>= l) := by
  rintro refs refs' ⟨r, c⟩ ⟨r', c'⟩ h h'
  rcases run_bind_iff.mp h with ⟨e, hx, rfl⟩ | ⟨a, ⟨p, refs₁⟩, hx, hk⟩ <;>
    rcases run_bind_iff.mp h' with ⟨e', hy, rfl⟩ | ⟨b, ⟨p', refs₁'⟩, hy, hl⟩
  · exact ⟨rfl, (hxy _ _ _ _ hx hy).2⟩
  · exact absurd (hxy _ _ _ _ hx hy).1 Bool.false_ne_true
  · exact absurd (hxy _ _ _ _ hx hy).1.symm Bool.false_ne_true
  · obtain ⟨_, hp, hp'⟩ := hxy _ _ _ _ hx hy
    cases hp
    cases hp'
    exact hkl a b _ _ _ _ hk hl

theorem Alike.lift_bind {o o' : Option α} {k l : α → RenderM β}
    (h : ∀ a b, o = some a → o' = some b → Alike (k a) (l b)) :
    Alike (liftM o >>= k) (liftM o' >>= l) := by
  intro refs refs' v v' hx hy
  rw [run_lift_bind] at hx hy
  obtain ⟨a, ha, hx⟩ := Option.bind_eq_some_iff.mp hx
  obtain ⟨b, hb, hy⟩ := Option.bind_eq_some_iff.mp hy
  exact h a b ha hb _ _ _ _ hx hy

theorem Alike.get_bind {k : Context → RenderM β}
    (h : ∀ refs refs', Alike (k ⟨.hubReturn, refs⟩) (k ⟨.receiverReturn, refs'⟩)) :
    Alike (get >>= k) (get >>= k) := by
  intro refs refs' v v' hx hy
  exact h refs refs' _ _ _ _ hx hy

theorem Alike.nested {P : Note → Prop} {x : RenderM α} (h : Uniform P .nested x) :
    Alike (nested x) (nested x) := by
  intro refs refs' v v' hx hy
  rw [run_nested] at hx hy
  rcases h with h | ⟨r, ns, ht, _⟩
  · rw [h] at hx
    cases hx
  · rw [ht] at hx hy
    cases hx
    cases hy
    exact ⟨rfl, rfl, rfl⟩

theorem Alike.noteAll (ns ns' : List Note) : Alike (noteAll ns) (noteAll ns') := by
  intro refs refs' v v' h h'
  cases h
  cases h'
  exact ⟨rfl, rfl, rfl⟩

theorem Alike.refuse : Alike (refuse g ty) (refuse g ty) :=
  .lift_bind fun _ _ _ _ => .throw _ _

theorem Alike.mapM {f : α → RenderM β} {as : List α} (h : ∀ a ∈ as, Alike (f a) (f a)) :
    Alike (as.mapM f) (as.mapM f) := by
  induction as with
  | nil => exact .pure _ _
  | cons a as ih =>
    rw [List.mapM_cons]
    exact .bind (h a List.mem_cons_self) fun _ _ =>
      .bind (ih fun b hb => h b (List.mem_cons_of_mem _ hb)) fun _ _ => .pure _ _

end RenderM

open RenderM

variable {g : TypeGraph} {w : WellKnown} {P : Note → Prop} {render : TypeId → RenderM String}
  {ty : TypeId}

/-- Two plans that both fail, or go on to the same types. -/
inductive Plan.SameParts : Plan → Plan → Prop
  | fail (e e' : RenderError) : SameParts (.fail e) (.fail e')
  | write (ns ns' : List Note) (ps : List Part) (s s' : Surround) :
      SameParts (.write ns ps s) (.write ns' ps s')

theorem Plan.SameParts.refl (plan : Plan) : plan.SameParts plan := by
  cases plan <;> constructor

theorem Plan.ofArgument?_sameParts {plan? plan?' : TypeId → Option Plan} {plan plan' : Plan}
    (h : Plan.ofArgument? g ty plan? = some plan) (h' : Plan.ofArgument? g ty plan?' = some plan')
    (hplan : ∀ a, g.firstArgument? ty = some (some a) → plan? a = some plan →
      plan?' a = some plan' → plan.SameParts plan') : plan.SameParts plan' := by
  obtain ⟨found, hfound, h⟩ := Option.bind_eq_some_iff.mp h
  obtain ⟨found', hfound', h'⟩ := Option.bind_eq_some_iff.mp h'
  cases hfound.symm.trans hfound'
  cases found with
  | some a => exact hplan a hfound h h'
  | none =>
    cases h.symm.trans h'
    exact .refl plan

/-- At the two kinds of results a rule goes on to the same types, except that the rule for tasks
looks for streams in the results of hubs. -/
theorem Rule.plan?_sameParts {rule : Rule} {plan plan' : Plan}
    (hstream : rule = .genericTask → ∀ a, g.firstArgument? ty = some (some a) →
      w.isStream? g a ≠ some true)
    (h : rule.plan? g w .hubReturn ty = some plan)
    (h' : rule.plan? g w .receiverReturn ty = some plan') : plan.SameParts plan' := by
  cases rule with
  | custom rule =>
    obtain ⟨pattern, action, text⟩ := rule
    cases action with
    | position =>
      cases h
      cases h'
      exact .write ..
    | _ =>
      cases h.symm.trans h'
      exact .refl plan
  | genericTask =>
    refine Plan.ofArgument?_sameParts h h' fun inner hinner h h' => ?_
    obtain ⟨b, hb, h⟩ := Option.bind_eq_some_iff.mp h
    cases b with
    | true => exact absurd hb (hstream rfl inner hinner)
    | false =>
      cases h
      cases h'
      exact .refl _
  | stream =>
    refine Plan.ofArgument?_sameParts h h' fun element _ h h' => ?_
    cases h
    cases h'
    exact .write ..
  | override _ | task | primitive | collection | dataType =>
    cases h.symm.trans h'
    exact .refl plan

theorem Rule.apply_alike (hnested : ∀ a, Uniform P .nested (render a)) (rule : Rule)
    (hstream : rule = .genericTask → ∀ a, g.firstArgument? ty = some (some a) →
      w.isStream? g a ≠ some true)
    (hsame : ∀ r, rule = .custom r → ∀ a, g.firstArgument? ty = some (some a) →
      Alike (render a) (render a)) :
    Alike (rule.apply g w render ty) (rule.apply g w render ty) := by
  rw [Rule.apply_eq]
  refine .get_bind fun refs refs' => .lift_bind fun plan plan' hplan hplan' => ?_
  have hdoes := Rule.plan?_does hplan
  cases Rule.plan?_sameParts hstream hplan hplan' with
  | fail e e' => exact .throw e e'
  | write ns ns' ps s s' =>
    refine .bind (.noteAll ns ns') fun _ _ => .bind (.mapM ?_) fun _ _ => .pure _ _
    rintro ⟨a, inside⟩ hpart
    cases inside with
    | true => exact .nested (hnested a)
    | false =>
      -- only custom rules go on where the type itself stands
      have hdescends := (hdoes.2 _ _).mp ⟨_, hpart, rfl, rfl⟩
      rcases hdescends.position with hp | ⟨_, r, rfl⟩
      · cases hp
      · exact hsame r rfl a hdescends.1

/-! ## Whole renderings -/

open Sequencing WellKnown Generator

variable {rules : List Rule}

/-- Positions make no difference to what can be rendered if tasks are not left to the built-in
rule. -/
theorem renderWithin_alike
    (htasks : ∀ ty, w.isGenericTask? g ty = some true →
      Rule.find? g w rules ty ≠ some (some .genericTask)) (room : Nat) (ty : TypeId) :
    Alike (renderWithin g w rules room ty) (renderWithin g w rules room ty) := by
  induction room generalizing ty with
  | zero => intro _ _ _ _ hx; cases hx
  | succ room ih =>
    refine .lift_bind fun found _ hfound hfound' => ?_
    cases hfound.symm.trans hfound'
    cases found with
    | none => exact .refuse
    | some rule =>
      refine rule.apply_alike (fun a => renderWithin_uniform rules room a .nested) ?_
        (fun _ _ a _ => ih a)
      rintro rfl
      obtain ⟨_, _, _, _, hclaims⟩ := findM?_eq_some hfound
      exact absurd hfound (htasks ty hclaims)

/-! ## Rules of a run -/

/-- The rules in front of the built-in ones. -/
def Generator.frontRules (x : Generator) : List Rule :=
  (if x.settings.types.overrides.isEmpty then [] else [.override x.settings.types.overrides])
    ++ x.rules.map .custom

theorem Generator.allRules_eq (x : Generator) :
    x.allRules = x.frontRules ++ (Rule.builtin ++ x.fallbacks.map .custom) := by
  rw [Generator.allRules, Generator.frontRules, List.append_assoc]

private theorem mem_frontRules {x : Generator} {rule : Rule} (h : rule ∈ x.frontRules) :
    (∃ texts, rule = .override texts) ∨ ∃ r, rule = .custom r := by
  rcases List.mem_append.mp h with h | h
  · split at h
    · cases h
    · exact .inl ⟨_, List.mem_singleton.mp h⟩
  · obtain ⟨r, _, rfl⟩ := List.mem_map.mp h
    exact .inr ⟨r, rfl⟩

/-- The rules in front go by the metadata name. -/
theorem frontRules_find?_congr (x : Generator) {ty ty' : TypeId}
    (h : g.metadataName? ty = g.metadataName? ty') :
    x.frontRules.findM? (fun r => r.claims? g w ty) =
      x.frontRules.findM? (fun r => r.claims? g w ty') := by
  refine findM?_congr fun rule hrule => ?_
  rcases mem_frontRules hrule with ⟨texts, rfl⟩ | ⟨r, rfl⟩
  · rw [Rule.claims?, Rule.claims?, h]
  · rw [Rule.claims?, Rule.claims?, h]

variable {x : Generator} {names : WellKnownNames} {a : TypeId}

/-- If one task is left to the built-in rule, every task is. -/
theorem find?_genericTask_of_task (hg : g.Coherent) (hw : resolve g names = .ok w)
    {ty' a' : TypeId} (ht : TaskOf g w ty a) (ht' : TaskOf g w ty' a')
    (h : Rule.find? g w x.allRules ty' = some (some .genericTask)) :
    Rule.find? g w x.allRules ty = some (some .genericTask) := by
  have hname : g.metadataName? ty = g.metadataName? ty' :=
    (ht.metadataName? hg hw).trans (ht'.metadataName? hg hw).symm
  rw [Rule.find?, Generator.allRules_eq, findM?_append] at h ⊢
  rw [frontRules_find?_congr x hname]
  rcases hfront : x.frontRules.findM? (fun r => r.claims? g w ty') with _ | _ | rule
  · rw [hfront] at h
    cases h
  · have hbuiltin : Rule.builtin.findM? (fun r => r.claims? g w ty) = some (some .genericTask) :=
      Binding.find?_builtin_genericTask (ht.not_isTask hg hw)
        (isGenericTask?_eq_true_iff.mpr ⟨a, ht⟩)
    simp only [hfront, findM?_append, hbuiltin]
  · rw [hfront] at h
    cases h
    obtain ⟨before, after, hrules, _⟩ := findM?_eq_some hfront
    have hmem : Rule.genericTask ∈ x.frontRules :=
      hrules ▸ List.mem_append_right _ List.mem_cons_self
    rcases mem_frontRules hmem with ⟨_, e⟩ | ⟨_, e⟩ <;> cases e

/-- What a receiver may return either carries nothing or is a task of no stream. -/
theorem taskOf_of_receiverResult (hg : g.Coherent) (hw : resolve g names = .ok w)
    (h : Call.receiverViolation? g w ty = some none) (ha : g.firstArgument? ty = some (some a)) :
    TaskOf g w ty a ∧ w.isStream? g a = some false := by
  rcases Call.receiverViolation?_eq_none h with htask | ⟨htask, hs⟩
  · obtain ⟨head, hf⟩ := resolve_isTask hg hw htask
    cases (firstArgument?_of_declared hf).symm.trans ha
  · obtain ⟨inner, hinner⟩ := isGenericTask?_eq_true_iff.mp htask
    cases hinner.firstArgument?.symm.trans ha
    exact ⟨hinner, Call.isTaskOfStream?_of_taskOf hinner ▸ hs⟩

/-- A result that a receiver may have renders in both places or in none. -/
theorem renderType_alike (hg : g.Coherent) (hw : resolve g names = .ok w)
    (h : Call.receiverViolation? g w ty = some none) :
    Alike (renderType g w x.allRules ty) (renderType g w x.allRules ty) := by
  unfold renderType
  cases g.typeCount with
  | zero => intro _ _ _ _ hx; cases hx
  | succ room =>
    refine .lift_bind fun found _ hfound hfound' => ?_
    cases hfound.symm.trans hfound'
    cases found with
    | none => exact .refuse
    | some rule =>
      refine rule.apply_alike (fun a => renderWithin_uniform _ room a .nested) ?_ ?_
      · rintro - a ha hs
        cases (taskOf_of_receiverResult hg hw h ha).2.symm.trans hs
      · rintro r rfl a ha
        have htask := (taskOf_of_receiverResult hg hw h ha).1
        -- a rule in front has taken this task, so the built-in one gets none of them
        refine renderWithin_alike (fun ty' hty' hfind => ?_) room a
        obtain ⟨inner', htask'⟩ := isGenericTask?_eq_true_iff.mp hty'
        cases hfound.symm.trans (find?_genericTask_of_task hg hw htask htask' hfind)

theorem renders_hubReturn (hg : g.Coherent) (hw : resolve g names = .ok w)
    (hadmitted : Call.receiverViolation? g w ty = some none) {text : String}
    (h : Binding.Renders (renderAt? g w x.allRules) .receiverReturn ty text) (e : RenderError) :
    ¬ Binding.Refuses (renderAt? g w x.allRules) .hubReturn ty e := by
  intro hrefused
  obtain ⟨_, hr, _⟩ := h
  obtain ⟨⟨v, c⟩, hrun, hv⟩ := Option.map_eq_some_iff.mp hr
  obtain ⟨⟨v', c'⟩, hrun', hv'⟩ := Option.map_eq_some_iff.mp hrefused
  have hok := (renderType_alike hg hw hadmitted _ _ _ _ hrun' hrun).1
  cases v with
  | error _ => cases hv
  | ok _ =>
    cases v' with
    | error _ => cases hok
    | ok _ => cases hv'

end HubBindings
