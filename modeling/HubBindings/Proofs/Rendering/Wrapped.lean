import HubBindings.Proofs.Binding
import HubBindings.Proofs.Rendering.Trace
import HubBindings.Proofs.WellKnown

/-!
Tasks and streams as they are rendered, at every position and by every list of rules that leaves
them to the built-in rules.

* `Renders.promise`, `Renders.taskOfStream`, `Renders.stream`: the text of a task or a stream is
  built from the text of what it carries, rendered as nested;
* `streamResult_noted_iff`: with the built-in rules, the wrapper of streams that the caller consumes
  is noted exactly where a hub returns a stream or a task of one.
-/

namespace HubBindings.Binding

open RenderM WellKnown Sequencing

variable {g : TypeGraph} {w : WellKnown} {rules : List Rule} {p : Position} {ty a : TypeId}
  {text : String}

/-! ## Plans of tasks and streams -/

private theorem plan?_promise (ha : g.firstArgument? ty = some (some a))
    (hp : p = .hubReturn → w.isStream? g a = some false) :
    Rule.genericTask.plan? g w p ty = some (.inside a (.angles "Promise")) := by
  by_cases hpos : p = .hubReturn
  · simp [Rule.plan?, Plan.ofArgument?, ha, hpos, hp hpos]
  · simp [Rule.plan?, Plan.ofArgument?, ha, hpos]

private theorem plan?_taskOfStream {inner : TypeId}
    (hinner : g.firstArgument? ty = some (some inner))
    (hs : w.isStream? g inner = some true) (ha : g.firstArgument? inner = some (some a)) :
    Rule.genericTask.plan? g w .hubReturn ty =
      some (.inside a (.angles "IStreamResult") [.wrapper .streamResult]) := by
  simp [Rule.plan?, Plan.ofArgument?, hinner, hs, ha]

private theorem plan?_stream (ha : g.firstArgument? ty = some (some a)) :
    Rule.stream.plan? g w p ty =
      let wrapper : Wrapper := if p = .hubReturn then .streamResult else .subject
      some (.inside a (.angles wrapper.identifier) [.wrapper wrapper]) := by
  simp [Rule.plan?, Plan.ofArgument?, ha]

/-- The first rule in charge of a type carries out its plan. -/
theorem run_renderType {rule : Rule} {c : Context} {v : Except RenderError String × Context}
    {plan : Plan} (hfind : Rule.find? g w rules ty = some (some rule))
    (hplan : rule.plan? g w c.position ty = some plan)
    (h : (renderType g w rules ty).run c = some v) :
    ∃ room, room + 1 = g.typeCount ∧
      (plan.run (renderWithin g w rules room)).run c = some v := by
  rw [renderType] at h
  cases hcount : g.typeCount with
  | zero => rw [hcount] at h; cases h
  | succ room =>
    rw [hcount, renderWithin, run_lift_bind, hfind, Option.bind_some] at h
    have hrun : (rule.apply g w (renderWithin g w rules room) ty).run c =
        (plan.run (renderWithin g w rules room)).run c := by
      rw [Rule.apply_eq, run_get_bind, run_lift_bind, hplan, Option.bind_some]
    exact ⟨room, rfl, hrun.symm.trans h⟩

theorem Renders.plan {rule : Rule} {plan : Plan}
    (hfind : Rule.find? g w rules ty = some (some rule)) (hplan : rule.plan? g w p ty = some plan)
    (h : Renders (renderAt? g w rules) p ty text) :
    ∃ room c', room + 1 = g.typeCount ∧
      (plan.run (renderWithin g w rules room)).run ⟨p, {}⟩ = some (.ok text, c') := by
  obtain ⟨r, hr, rfl⟩ := h
  obtain ⟨⟨v, c'⟩, hrun, hv⟩ := Option.map_eq_some_iff.mp hr
  cases v with
  | error e => cases hv
  | ok t =>
    cases hv
    obtain ⟨room, hroom, h⟩ := run_renderType hfind hplan hrun
    exact ⟨room, c', hroom, h⟩

/-- If a type is rendered with a text around the rendering of another one inside of it, the other
one is rendered there. -/
theorem Renders.inside {rule : Rule} {s : Surround} {notes : List Note}
    (hfind : Rule.find? g w rules ty = some (some rule))
    (hplan : rule.plan? g w p ty = some (.inside a s notes))
    (h : Renders (renderAt? g w rules) p ty text) :
    ∃ t, Renders (renderAt? g w rules) .nested a t ∧ text = s.around [t] := by
  obtain ⟨room, c', hroom, hrun⟩ := h.plan hfind hplan
  rw [Plan.run_inside fun _ => rfl] at hrun
  obtain ⟨_, c₁, hnotes, hrun⟩ := run_bind_ok_iff.mp hrun
  cases hnotes
  obtain ⟨t, c₂, hx, ht⟩ := run_bind_ok_iff.mp hrun
  cases ht
  rw [run_nested] at hx
  obtain ⟨⟨v, c₃⟩, hnested, e⟩ := Option.map_eq_some_iff.mp hx
  cases e
  exact ⟨t, renderAt?_of_run (by omega) hnested, rfl⟩

theorem Renders.promise (hfind : Rule.find? g w rules ty = some (some .genericTask))
    (ha : g.firstArgument? ty = some (some a)) (hp : p = .hubReturn → w.isStream? g a = some false)
    (h : Renders (renderAt? g w rules) p ty text) :
    ∃ t, Renders (renderAt? g w rules) .nested a t ∧ text = inAngles "Promise" t := by
  obtain ⟨t, ht, rfl⟩ := h.inside hfind (plan?_promise ha hp)
  exact ⟨t, ht, Surround.angles_around_singleton _ t⟩

theorem Renders.taskOfStream {inner : TypeId}
    (hfind : Rule.find? g w rules ty = some (some .genericTask))
    (hinner : g.firstArgument? ty = some (some inner)) (hs : w.isStream? g inner = some true)
    (ha : g.firstArgument? inner = some (some a))
    (h : Renders (renderAt? g w rules) .hubReturn ty text) :
    ∃ t, Renders (renderAt? g w rules) .nested a t ∧ text = inAngles "IStreamResult" t := by
  obtain ⟨t, ht, rfl⟩ := h.inside hfind (plan?_taskOfStream hinner hs ha)
  exact ⟨t, ht, Surround.angles_around_singleton _ t⟩

theorem Renders.stream (hfind : Rule.find? g w rules ty = some (some .stream))
    (ha : g.firstArgument? ty = some (some a)) (h : Renders (renderAt? g w rules) p ty text) :
    ∃ t, Renders (renderAt? g w rules) .nested a t ∧
      text = inAngles (if p = .hubReturn then "IStreamResult" else "Subject") t := by
  obtain ⟨t, ht, rfl⟩ := h.inside hfind (plan?_stream ha)
  refine ⟨t, ht, ?_⟩
  rw [Surround.angles_around_singleton]
  split <;> rfl

/-! ## The built-in rules alone -/

theorem find?_builtin_task (h : w.isTask ty = true) :
    Rule.find? g w Rule.builtin ty = some (some .task) :=
  findM?_cons_true (by rw [Rule.claims?, h]) _

theorem find?_builtin_genericTask (ht : w.isTask ty = false)
    (h : w.isGenericTask? g ty = some true) :
    Rule.find? g w Rule.builtin ty = some (some .genericTask) := by
  rw [Rule.find?, Rule.builtin, findM?_cons_false (by rw [Rule.claims?, ht])]
  exact findM?_cons_true (by rw [Rule.claims?, h]) _

private theorem find?_builtin_stream (ht : w.isTask ty = false)
    (hg : w.isGenericTask? g ty = some false)
    (h : w.isStream? g ty = some true) :
    Rule.find? g w Rule.builtin ty = some (some .stream) := by
  rw [Rule.find?, Rule.builtin, findM?_cons_false (by rw [Rule.claims?, ht]),
    findM?_cons_false (by rw [Rule.claims?, hg])]
  exact findM?_cons_true (by rw [Rule.claims?, h]) _

theorem find?_builtin_of_taskOf (hw : Separated g w) (h : TaskOf g w ty a) :
    Rule.find? g w Rule.builtin ty = some (some .genericTask) := by
  have hg := isGenericTask?_eq_true_iff.mpr ⟨a, h⟩
  obtain ⟨d, as, _, hf⟩ := h
  exact find?_builtin_genericTask (hw.not_isTask hf) hg

theorem find?_builtin_of_streamOf (hw : Separated g w) (h : StreamOf g w ty a) :
    Rule.find? g w Rule.builtin ty = some (some .stream) := by
  have hg := hw.isGenericTask?_of_stream h
  have hs := isStream?_eq_true_iff.mpr ⟨a, h⟩
  obtain ⟨d, as, _, hf⟩ := h
  exact find?_builtin_stream (hw.not_isTask hf) hg hs

/-- A type that is neither a stream nor a task of one notes at most what is inside of it. -/
theorem renderWithin_builtin_quiet (room : Nat) (hs : w.isStream? g ty ≠ some true)
    (ht : Call.isTaskOfStream? g w ty ≠ some true) :
    Uniform (Note.AllowedAt .nested) p (renderWithin g w Rule.builtin room ty) := by
  cases room with
  | zero => exact .inl fun _ => rfl
  | succ room =>
    refine .lift_bind fun found hfound => ?_
    cases found with
    | none => exact .refuse ty
    | some rule =>
      obtain ⟨before, after, hrules, _, hclaims⟩ := findM?_eq_some hfound
      have hmem : rule ∈ Rule.builtin := hrules ▸ List.mem_append_right _ List.mem_cons_self
      have hstream : ¬ rule.Streams g w ty := by
        cases rule with
        | stream => exact absurd hclaims hs
        | genericTask =>
          rintro ⟨inner, hinner, hs'⟩
          refine ht ?_
          have hg : w.isGenericTask? g ty = some true := hclaims
          simp [Call.isTaskOfStream?, Call.taskResult?, hg, hinner, hs']
        | _ => exact id
      have hcustom : ∀ r, rule ≠ .custom r := by
        rintro r rfl
        simp [Rule.builtin] at hmem
      refine rule.apply_uniform ty (fun n hn e => absurd (e ▸ hn).streams.2 hstream)
        fun p' a ha => ?_
      rcases ha.position with rfl | ⟨_, r, hr⟩
      · exact renderWithin_uniform Rule.builtin room a .nested
      · exact absurd hr (hcustom r)

section Noted

variable {r : Except RenderError String} {c' : Context}

/-- What a plan notes stays noted. -/
theorem noted_of_inside {rule : Rule} {s : Surround} {x : Wrapper}
    (hfind : Rule.find? g w rules ty = some (some rule))
    (hplan : rule.plan? g w p ty = some (.inside a s [.wrapper x]))
    (h : (renderType g w rules ty).run { position := p } = some (r, c')) :
    x ∈ c'.references.wrappers := by
  obtain ⟨room, _, hrun⟩ := run_renderType hfind hplan h
  rw [Plan.run_inside fun _ => rfl] at hrun
  have hrest : Uniform (fun _ => True) p
      (nested (renderWithin g w rules room a) >>= fun t => pure (s.around [t])) :=
    .bind (.nested ((renderWithin_uniform rules room a .nested).mono fun _ _ => trivial)) fun _ =>
      .pure _
  exact (hrest.mem_wrappers hrun x).1 List.mem_cons_self

theorem streamResult_noted_iff (hw : Separated g w)
    (h : (renderType g w Rule.builtin ty).run { position := p } = some (r, c')) :
    .streamResult ∈ c'.references.wrappers ↔
      p = .hubReturn ∧
        (w.isStream? g ty = some true ∨ Call.isTaskOfStream? g w ty = some true) := by
  constructor
  · intro hmem
    have hp : p = .hubReturn := by
      rcases ((renderWithin_uniform _ _ ty p).mem_wrappers h _).2 hmem with hnone | hp
      · cases hnone
      · exact hp rfl
    refine ⟨hp, ?_⟩
    by_contra hno
    rw [not_or] at hno
    rcases ((renderWithin_builtin_quiet g.typeCount hno.1 hno.2).mem_wrappers h _).2 hmem with
      hnone | hnested
    · cases hnone
    · cases hnested rfl
  · rintro ⟨rfl, hs | ht⟩
    · obtain ⟨a, ha⟩ := isStream?_eq_true_iff.mp hs
      exact noted_of_inside (find?_builtin_of_streamOf hw ha) (plan?_stream ha.firstArgument?) h
    · obtain ⟨inner, a, hinner, ha⟩ := isTaskOfStream?_eq_true_iff.mp ht
      exact noted_of_inside (find?_builtin_of_taskOf hw hinner) (plan?_taskOfStream
        hinner.firstArgument? (isStream?_eq_true_iff.mpr ⟨a, ha⟩) ha.firstArgument?) h

end Noted

end HubBindings.Binding
