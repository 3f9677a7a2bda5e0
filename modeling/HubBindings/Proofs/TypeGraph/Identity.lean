import HubBindings.Proofs.TypeGraph.Resolution
import HubBindings.WellKnown

/-!
Which types of a graph can be told apart by what they are made up of.

* `Alike`: two types have the same definition, the same arguments and the same element;
* `Double`: a type that is constructed without arguments from a declared type. It has an address of
  its own, and nothing that it is made up of tells it from the declared type;
* `types_toldApart`: doubles are the only types that are alike and not the same, and only a
  construction without arguments makes one. `taskTypes_not_shared` shows what such a type is
  mistaken for.
-/

namespace HubBindings.TypeGraph

variable {g g' : TypeGraph} {a b d ty : TypeId}

/-- Two types have the same definition, arguments and element. -/
structure Alike (g : TypeGraph) (a b : TypeId) : Prop where
  definition : g.definition? a = g.definition? b
  arguments : g.arguments? a = g.arguments? b
  element : g.element? a = g.element? b

instance (g : TypeGraph) (a b : TypeId) : Decidable (g.Alike a b) :=
  decidable_of_iff
    (g.definition? a = g.definition? b ∧ g.arguments? a = g.arguments? b ∧
      g.element? a = g.element? b)
    ⟨fun ⟨hd, ha, he⟩ => ⟨hd, ha, he⟩, fun h => ⟨h.definition, h.arguments, h.element⟩⟩

/-- A type is constructed without arguments from a declared type. -/
def Double (g : TypeGraph) (d ty : TypeId) : Prop :=
  ∃ h, g.form? d = some (.declared h) ∧ g.form? ty = some (.constructed d [])

theorem Alike.symm (h : g.Alike a b) : g.Alike b a :=
  ⟨h.definition.symm, h.arguments.symm, h.element.symm⟩

/-! ## Alike types by their forms -/

private theorem alike_iff_forms {f f' : TypeForm} (hf : g.form? a = some f)
    (hf' : g.form? b = some f') :
    g.Alike a b ↔
      f.definition a = f'.definition b ∧ f.arguments = f'.arguments ∧ f.element? = f'.element? := by
  constructor
  · rintro ⟨hd, ha, he⟩
    rw [definition?_eq_form?, definition?_eq_form?, hf, hf'] at hd
    rw [arguments?_of_form? hf, arguments?_of_form? hf'] at ha
    rw [element?_of_form? hf, element?_of_form? hf'] at he
    exact ⟨Option.some.inj hd, Option.some.inj ha, Option.some.inj he⟩
  · rintro ⟨hd, ha, he⟩
    refine ⟨?_, ?_, ?_⟩
    · rw [definition?_eq_form?, definition?_eq_form?, hf, hf', Option.map_some, Option.map_some, hd]
    · rw [arguments?_of_form? hf, arguments?_of_form? hf', ha]
    · rw [element?_of_form? hf, element?_of_form? hf', he]

theorem Double.alike (h : g.Double d ty) : g.Alike d ty := by
  obtain ⟨head, hd, hty⟩ := h
  exact (alike_iff_forms hd hty).mpr ⟨rfl, rfl, rfl⟩

theorem Double.ne (h : g.Double d ty) : ty ≠ d := by
  rintro rfl
  obtain ⟨head, hd, hty⟩ := h
  cases hd.symm.trans hty

/-- A declared type that is alike to another type is the same, or the other is its double. -/
theorem Alike.of_declared {h : TypeHead} {f : TypeForm} (halike : g.Alike a b)
    (ha : g.form? a = some (.declared h)) (hb : g.form? b = some f) : a = b ∨ g.Double a b := by
  obtain ⟨hdef, hargs, helem⟩ := (alike_iff_forms ha hb).mp halike
  cases f with
  | declared h' => exact .inl hdef
  | array e => cases helem
  | constructed d as =>
    cases hdef
    cases hargs
    exact .inr ⟨h, ha, hb⟩

/-- The tables have one type for each definition with arguments and one for each element, and a
declared type is its own definition. -/
theorem Layered.alike_iff (hg : Layered g) (ha : g.Issued a) (hb : g.Issued b) :
    g.Alike a b ↔ a = b ∨ g.Double a b ∨ g.Double b a := by
  obtain ⟨f, hf⟩ := issued_iff_form?.mp ha
  obtain ⟨f', hf'⟩ := issued_iff_form?.mp hb
  constructor
  · intro halike
    cases f with
    | declared h => exact (halike.of_declared hf hf').imp_right .inl
    | array e =>
      obtain ⟨hdef, _, helem⟩ := (alike_iff_forms hf hf').mp halike
      cases f' with
      | declared h' => cases helem
      | constructed d as => cases helem
      | array e' => exact .inl hdef
    | constructed d as =>
      cases f' with
      | declared h' =>
        exact (halike.symm.of_declared hf' hf).imp Eq.symm .inr
      | array e' => cases ((alike_iff_forms hf hf').mp halike).2.2
      | constructed d' as' =>
        obtain ⟨hdef, hargs, _⟩ := (alike_iff_forms hf hf').mp halike
        cases hdef
        cases hargs
        exact .inl (Option.some.inj
          ((hg.constructions.mpr hf).symm.trans (hg.constructions.mpr hf')))
  · rintro (rfl | hdouble | hdouble)
    · exact ⟨rfl, rfl, rfl⟩
    · exact hdouble.alike
    · exact hdouble.alike.symm

theorem Layered.double_unique (hg : Layered g) {ty' : TypeId} (h : g.Double d ty)
    (h' : g.Double d ty') : ty' = ty := by
  obtain ⟨_, _, hty⟩ := h
  obtain ⟨_, _, hty'⟩ := h'
  exact Option.some.inj ((hg.constructions.mpr hty').symm.trans (hg.constructions.mpr hty))

/-! ## Where doubles come from -/

/-- A declared type without type parameters can be constructed without arguments. -/
theorem Reachable.construct_double (hg : Reachable g) {h : TypeHead}
    (hd : g.form? d = some (.declared h)) (harity : h.arity = 0) :
    ∃ ty g', (construct d []).run g = some (.ok ty, g') ∧ g'.Double d ty := by
  have hissued : g.Issued d := issued_iff_form?.mpr ⟨_, hd⟩
  have hdefinition : g.definition? d = some d := by rw [definition?_eq_form?, hd]; rfl
  obtain ⟨⟨r, g'⟩, hrun, _⟩ := construct_answers hg.consistent hissued []
  obtain ⟨ty, rfl⟩ : ∃ ty, r = .ok ty := by
    obtain ⟨d', arity, hd', ha, hcases⟩ := construct_cases hrun
    cases hdefinition.symm.trans hd'
    rw [arity?, head?_of_declared hd, Option.map_some, harity] at ha
    rcases hcases with ⟨_, hne, _, _, _⟩ | ⟨ty, _, _, rfl, _⟩ | ⟨_, _, rfl, _⟩
    · exact absurd (Option.some.inj ha).symm hne
    · exact ⟨ty, rfl⟩
    · exact ⟨_, rfl⟩
  have hchanges := (construct_internings hg.coherent hissued (by simp) hrun).1.changes
  exact ⟨ty, g', hrun, h, hchanges.form?_kept hd,
    construct_form? hg.consistent.toLayered hdefinition hrun⟩

/-- A constructed type that was not there before was added by its construction. -/
theorem Change.constructed {as : List TypeId} (h : Change g g') (hold : g.form? ty = none)
    (hnew : g'.form? ty = some (.constructed d as)) :
    g' = g.withConstruction d as ∧ ty = g.nextType := by
  cases h with
  | declare decl _ =>
    rw [form?_push (g := g) rfl, hold] at hnew
    split at hnew <;> cases hnew
  | addAttribute _ _ h =>
    rw [(modify?_addsMember (by intro s; rfl) h).forms, hold] at hnew
    cases hnew
  | addBase _ _ h =>
    rw [(modify?_addsMember (by intro s; rfl) h).forms, hold] at hnew
    cases hnew
  | addMethod _ _ h =>
    rw [(addMethod?_addsMember h).forms, hold] at hnew
    cases hnew
  | construct _ _ _ _ _ =>
    rw [form?_push (g := g) rfl, hold] at hnew
    split at hnew
    · rename_i hty
      cases hnew
      exact ⟨rfl, hty⟩
    · cases hnew
  | array _ _ =>
    rw [form?_push (g := g) rfl, hold] at hnew
    split at hnew <;> cases hnew

/-- A double stays, and only a construction without arguments makes a new one. -/
theorem Change.double (h : Change g g') (hg : Layered g) (hdouble : g'.Double d ty) :
    g.Double d ty ∨ g' = g.withConstruction d [] ∧ ty = g.nextType := by
  obtain ⟨head, hd, hty⟩ := hdouble
  cases hold : g.form? ty with
  | none => exact .inr (h.constructed hold hty)
  | some f =>
    cases (h.form?_kept hold).symm.trans hty
    -- the definition is older than the type, so it was there before
    have hissued : g.Issued d := Nat.lt_trans (hg.descends hold d List.mem_cons_self)
      (issued_iff_form?.mpr ⟨_, hold⟩)
    obtain ⟨f, hf⟩ := issued_iff_form?.mp hissued
    cases (h.form?_kept hf).symm.trans hd
    exact .inl ⟨head, hf, hold⟩

/-! ## Types of reachable graphs -/

/-- How far the types of a graph can be told apart. -/
structure ToldApart (g : TypeGraph) : Prop where
  /-- Types that are alike are the same, or one is the double of the other. -/
  alike : ∀ a b, g.Issued a → g.Issued b → (g.Alike a b ↔ a = b ∨ g.Double a b ∨ g.Double b a)
  /-- A type has at most one double, which is another type. -/
  double : ∀ d ty, g.Double d ty → ty ≠ d ∧ ∀ ty', g.Double d ty' → ty' = ty
  /-- Alike types share their addresses exactly if there are no doubles. -/
  shared : (∀ a b, g.Issued a → g.Issued b → g.Alike a b → a = b) ↔ ∀ d ty, ¬ g.Double d ty
  /-- Every declared type without type parameters can get a double. -/
  made : ∀ d h, g.form? d = some (.declared h) → h.arity = 0 →
    ∃ ty g', (construct d []).run g = some (.ok ty, g') ∧ g'.Double d ty
  /-- No other change makes one. -/
  only : ∀ g' d ty, Change g g' → g'.Double d ty →
    g.Double d ty ∨ g' = g.withConstruction d [] ∧ ty = g.nextType

theorem types_toldApart (hg : g.Reachable) : g.ToldApart := by
  have hlayered := hg.consistent.toLayered
  refine ⟨fun a b => hlayered.alike_iff, fun d ty h => ⟨h.ne, fun _ => hlayered.double_unique h⟩,
    ⟨fun hshared d ty h => ?_, fun hnone a b ha hb halike => ?_⟩,
    fun d h => hg.construct_double, fun g' d ty h => h.double hlayered⟩
  · obtain ⟨head, hd, hty⟩ := id h
    exact h.ne (hshared d ty (issued_iff_form?.mpr ⟨_, hd⟩) (issued_iff_form?.mpr ⟨_, hty⟩)
      h.alike).symm
  · rcases (hlayered.alike_iff ha hb).mp halike with heq | hdouble | hdouble
    · exact heq
    · exact absurd hdouble (hnone a b)
    · exact absurd hdouble (hnone b a)

/-- The markers, the task without a result and the one with a result. -/
def taskRuntime : TypeGraph :=
  declareAll
    [{ head := { kind := .classType, nameSpace := "TypedSignalR.Client", name := "HubAttribute" } },
     { head :=
        { kind := .classType, nameSpace := "TypedSignalR.Client", name := "ReceiverAttribute" } },
     { head :=
        { kind := .classType, nameSpace := "Tapper", name := "TranspilationSourceAttribute" } },
     { head := { kind := .classType, nameSpace := "System.Threading.Tasks", name := "Task" } },
     { head :=
        { kind := .classType, nameSpace := "System.Threading.Tasks", name := "Task", arity := 1 } }]
    {}

/-- The task without a result constructed without arguments, a task of it, and an array of that. -/
def taskTypes : TypeGraph :=
  ((taskRuntime.withConstruction ⟨3⟩ []).withConstruction ⟨4⟩ [⟨5⟩]).withArray ⟨6⟩

private theorem taskTypes_reachable : taskTypes.Reachable := by
  have h₀ : taskRuntime.Reachable := .declareAll .empty (by decide +kernel)
  have h₁ := h₀.withConstruction ⟨3⟩ [] (by decide +kernel) (by decide +kernel) rfl
  have h₂ := h₁.withConstruction ⟨4⟩ [⟨5⟩] (by decide +kernel) (by decide +kernel) rfl
  have he : ((taskRuntime.withConstruction ⟨3⟩ []).withConstruction ⟨4⟩ [⟨5⟩]).Issued ⟨6⟩ := by
    decide +kernel
  exact .step h₂ (.arrayOf he rfl)

theorem taskTypes_toldApart :
    taskTypes.Reachable ∧ taskTypes.Double ⟨3⟩ ⟨5⟩ ∧ ¬ taskTypes.Alike ⟨4⟩ ⟨6⟩ ∧
      ¬ taskTypes.Alike ⟨6⟩ ⟨7⟩ ∧ taskTypes.ToldApart :=
  ⟨taskTypes_reachable, ⟨_, rfl, rfl⟩, by decide +kernel, by decide +kernel,
    types_toldApart taskTypes_reachable⟩

/-- The constructed type is alike to the task without a result, and is not taken for it. -/
theorem taskTypes_not_shared :
    taskTypes.Reachable ∧
      ∃ w, WellKnown.resolve taskTypes {} = .ok w ∧ taskTypes.Issued ⟨3⟩ ∧ taskTypes.Issued ⟨5⟩ ∧
        taskTypes.Alike ⟨3⟩ ⟨5⟩ ∧ (⟨3⟩ : TypeId) ≠ ⟨5⟩ ∧ w.isTask ⟨3⟩ = true ∧
        w.isTask ⟨5⟩ = false :=
  ⟨taskTypes_reachable, _, rfl, by decide +kernel, by decide +kernel, by decide +kernel,
    by decide, by decide +kernel, by decide +kernel⟩

end HubBindings.TypeGraph
