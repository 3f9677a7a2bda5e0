import HubBindings.Proofs.WellKnown

/-!
Shapes of calls. `classify?_cases` says what each shape stands for, the lemmas on `featured?` what
a call carries, and `hubViolation?_eq_none`, `receiverViolation?_eq_none` what a role admits.
-/

namespace HubBindings.Call

open WellKnown Sequencing

variable {g : TypeGraph} {w : WellKnown} {ty a inner : TypeId} {m : Method} {call : Call}

theorem featured?_of_streamOf (h : StreamOf g w ty a) : featured? g w ty = some a := by
  simp [featured?, isStream?_eq_true_iff.mpr ⟨a, h⟩, h.firstArgument?]

theorem featured?_of_taskOf (hw : Separated g w) (h : TaskOf g w ty inner)
    (hs : w.isStream? g inner = some false) : featured? g w ty = some inner := by
  simp [featured?, hw.isStream?_of_task h, isGenericTask?_eq_true_iff.mpr ⟨inner, h⟩,
    h.firstArgument?, hs]

theorem featured?_of_taskOfStream (hw : Separated g w) (h : TaskOf g w ty inner)
    (hs : StreamOf g w inner a) : featured? g w ty = some a := by
  simp [featured?, hw.isStream?_of_task h, isGenericTask?_eq_true_iff.mpr ⟨inner, h⟩,
    h.firstArgument?, isStream?_eq_true_iff.mpr ⟨a, hs⟩, hs.firstArgument?]

theorem isTaskOfStream?_of_taskOf (h : TaskOf g w ty inner) :
    isTaskOfStream? g w ty = w.isStream? g inner := by
  simp [isTaskOfStream?, taskResult?, isGenericTask?_eq_true_iff.mpr ⟨inner, h⟩, h.firstArgument?]

theorem returnsStream?_eq_true (h : returnsStream? g w ty = some true) :
    (∃ a, StreamOf g w ty a) ∨ ∃ inner a, TaskOf g w ty inner ∧ StreamOf g w inner a := by
  unfold returnsStream? at h
  obtain ⟨b, hb, h⟩ := Option.bind_eq_some_iff.mp h
  cases b with
  | true =>
    obtain ⟨d, a, as, hd, hf⟩ := isConstructedFrom?_eq_true hb
    exact .inl ⟨a, d, as, .inl hd, hf⟩
  | false => exact .inr (isTaskOfStream?_eq_true_iff.mp h)

theorem returnsStream?_eq_false (h : returnsStream? g w ty = some false) :
    isTaskOfStream? g w ty = some false := by
  unfold returnsStream? at h
  obtain ⟨b, hb, h⟩ := Option.bind_eq_some_iff.mp h
  cases b with
  | true => cases h
  | false => exact h

/-- The shape of a method: by its result first, then by its parameters. -/
theorem classify?_cases (h : classify? g w m = some call) :
    ∃ stream, m.parameters.findM? (fun p => w.isStream? g p.type) = some stream ∧
      ((returnsStream? g w m.returns = some true ∧
          ∃ a, featured? g w m.returns = some a ∧ call = ⟨.serverStream, some a⟩) ∨
        (returnsStream? g w m.returns = some false ∧
          ∃ p a, stream = some p ∧ featured? g w p.type = some a ∧ call = ⟨.clientStream, some a⟩) ∨
        (returnsStream? g w m.returns = some false ∧ stream = none ∧
          w.isTask m.returns = true ∧ call = ⟨.unary, none⟩) ∨
        (returnsStream? g w m.returns = some false ∧ stream = none ∧ w.isTask m.returns = false ∧
          ∃ a, featured? g w m.returns = some a ∧ call = ⟨.unary, some a⟩)) := by
  unfold classify? at h
  obtain ⟨stream, hstream, h⟩ := Option.bind_eq_some_iff.mp h
  obtain ⟨b, hb, h⟩ := Option.bind_eq_some_iff.mp h
  refine ⟨stream, hstream, ?_⟩
  cases b with
  | true =>
    obtain ⟨a, ha, h⟩ := Option.bind_eq_some_iff.mp h
    cases h
    exact .inl ⟨hb, a, ha, rfl⟩
  | false =>
    cases stream with
    | some p =>
      obtain ⟨a, ha, h⟩ := Option.bind_eq_some_iff.mp h
      cases h
      exact .inr (.inl ⟨hb, p, a, rfl, ha, rfl⟩)
    | none =>
      cases ht : w.isTask m.returns with
      | true =>
        simp only [ht, Bool.false_eq_true, ↓reduceIte] at h
        cases h
        exact .inr (.inr (.inl ⟨hb, rfl, rfl, rfl⟩))
      | false =>
        simp only [ht, Bool.false_eq_true, ↓reduceIte] at h
        obtain ⟨a, ha, h⟩ := Option.bind_eq_some_iff.mp h
        cases h
        exact .inr (.inr (.inr ⟨hb, rfl, rfl, a, ha, rfl⟩))

/-! ## What roles admit -/

theorem hubViolation?_eq_none {shape : CallShape} (h : hubViolation? g w shape ty = some none) :
    match shape with
    | .serverStream => True
    | .clientStream => w.isTask ty = true
    | .unary => w.isTask ty = true ∨ w.isGenericTask? g ty = some true := by
  unfold hubViolation? at h
  obtain ⟨b, hb, h⟩ := Option.bind_eq_some_iff.mp h
  cases shape with
  | serverStream => trivial
  | clientStream =>
    by_contra ht
    simp only [ht, ↓reduceIte] at h
    obtain ⟨_, _, h⟩ := Option.bind_eq_some_iff.mp h
    cases h
  | unary =>
    by_contra hno
    rw [not_or] at hno
    have hb' : b = false := by
      cases b with
      | true => exact absurd hb hno.2
      | false => rfl
    simp only [hno.1, hb', Bool.or_self, Bool.false_eq_true, ↓reduceIte] at h
    obtain ⟨_, _, h⟩ := Option.bind_eq_some_iff.mp h
    cases h

theorem receiverViolation?_eq_none (h : receiverViolation? g w ty = some none) :
    w.isTask ty = true ∨
      w.isGenericTask? g ty = some true ∧ isTaskOfStream? g w ty = some false := by
  unfold receiverViolation? at h
  obtain ⟨b, hb, h⟩ := Option.bind_eq_some_iff.mp h
  obtain ⟨s, hs, h⟩ := Option.bind_eq_some_iff.mp h
  by_contra hno
  rw [not_or] at hno
  have hcond : (b && !s) = false := by
    cases b with
    | false => rfl
    | true =>
      cases s with
      | true => rfl
      | false => exact absurd ⟨hb, hs⟩ hno.2
  simp only [hno.1, hcond, Bool.or_self, Bool.false_eq_true, ↓reduceIte] at h
  obtain ⟨_, _, h⟩ := Option.bind_eq_some_iff.mp h
  cases h

/-- Of what a receiver admits, a hub refuses only a stream of the caller with another result than
the task without one. -/
theorem hubViolation?_of_receiver {shape : CallShape} {message : String}
    (hreceiver : receiverViolation? g w ty = some none)
    (h : hubViolation? g w shape ty = some (some message)) :
    shape = .clientStream ∧ w.isTask ty = false := by
  unfold hubViolation? at h
  obtain ⟨b, hb, h⟩ := Option.bind_eq_some_iff.mp h
  have hreturns := receiverViolation?_eq_none hreceiver
  cases htask : w.isTask ty with
  | true => cases shape <;> simp [htask] at h
  | false =>
    cases shape with
    | clientStream => exact ⟨rfl, rfl⟩
    | serverStream => cases h
    | unary =>
      simp only [htask, Bool.false_eq_true, false_or] at hreturns
      rw [hreturns.1] at hb
      cases hb
      simp at h

end HubBindings.Call
