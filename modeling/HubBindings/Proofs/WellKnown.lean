import HubBindings.CallShape
import HubBindings.Proofs.TypeGraph.Names

/-!
Tasks and streams by the forms of types.

* `TaskOf`, `StreamOf`: a type is a task or a stream of another;
* `resolve_separated`: with the names of the settings kept apart, no task is a stream, and neither
  the task without a result nor the cancellation token is one of them.
-/

namespace HubBindings.WellKnown

open TypeGraph

variable {g : TypeGraph} {w : WellKnown} {ty a d : TypeId}

def TaskOf (g : TypeGraph) (w : WellKnown) (ty a : TypeId) : Prop :=
  ∃ d as, w.genericTask = some d ∧ g.form? ty = some (.constructed d (a :: as))

def StreamOf (g : TypeGraph) (w : WellKnown) (ty a : TypeId) : Prop :=
  ∃ d as, (w.asyncEnumerable = some d ∨ w.channelReader = some d) ∧
    g.form? ty = some (.constructed d (a :: as))

theorem isConstructedFrom?_eq_true {o : Option TypeId}
    (h : g.isConstructedFrom? ty o = some true) :
    ∃ d a as, o = some d ∧ g.form? ty = some (.constructed d (a :: as)) := by
  cases o with
  | none => cases h
  | some d =>
    rw [isConstructedFrom?, arguments?_eq_form?, definition?_eq_form?] at h
    cases hf : g.form? ty with
    | none => rw [hf] at h; cases h
    | some f =>
      rw [hf] at h
      cases f with
      | declared head => cases h
      | array e => cases h
      | constructed d' as =>
        cases as with
        | nil => cases h
        | cons a as =>
          have hd : d' = d := of_decide_eq_true (Option.some.inj h)
          exact ⟨d, a, as, rfl, by rw [hd]⟩

theorem isConstructedFrom?_of_form? {as : List TypeId} (o : Option TypeId)
    (hf : g.form? ty = some (.constructed d (a :: as))) :
    g.isConstructedFrom? ty o = some (decide (o = some d)) := by
  cases o with
  | none => rfl
  | some d' =>
    rw [isConstructedFrom?, arguments?_eq_form?, definition?_eq_form?, hf]
    simp [TypeForm.arguments, TypeForm.definition, eq_comm]

theorem isGenericTask?_eq_true_iff : w.isGenericTask? g ty = some true ↔ ∃ a, TaskOf g w ty a := by
  constructor
  · intro h
    obtain ⟨d, a, as, hd, hf⟩ := isConstructedFrom?_eq_true h
    exact ⟨a, d, as, hd, hf⟩
  · rintro ⟨a, d, as, hd, hf⟩
    rw [isGenericTask?, isConstructedFrom?_of_form? _ hf, hd]
    simp

theorem isStream?_eq_true_iff : w.isStream? g ty = some true ↔ ∃ a, StreamOf g w ty a := by
  constructor
  · intro h
    obtain ⟨b, hb, h⟩ := Option.bind_eq_some_iff.mp h
    cases b with
    | true =>
      obtain ⟨d, a, as, hd, hf⟩ := isConstructedFrom?_eq_true hb
      exact ⟨a, d, as, .inl hd, hf⟩
    | false =>
      obtain ⟨d, a, as, hd, hf⟩ := isConstructedFrom?_eq_true h
      exact ⟨a, d, as, .inr hd, hf⟩
  · rintro ⟨a, d, as, hd, hf⟩
    rw [isStream?, isConstructedFrom?_of_form? _ hf, isConstructedFrom?_of_form? _ hf]
    by_cases he : w.asyncEnumerable = some d
    · simp [he]
    · simp [he, hd.resolve_left he]

theorem firstArgument?_of_declared {head : TypeHead} (hf : g.form? ty = some (.declared head)) :
    g.firstArgument? ty = some none := by
  rw [TypeGraph.firstArgument?, arguments?_eq_form?, hf]
  rfl

theorem TaskOf.firstArgument? (h : TaskOf g w ty a) : g.firstArgument? ty = some (some a) := by
  obtain ⟨d, as, _, hf⟩ := h
  exact firstArgument?_of_constructed hf

theorem StreamOf.firstArgument? (h : StreamOf g w ty a) : g.firstArgument? ty = some (some a) := by
  obtain ⟨d, as, _, hf⟩ := h
  exact firstArgument?_of_constructed hf

theorem isTaskOfStream?_eq_true_iff :
    Call.isTaskOfStream? g w ty = some true ↔
      ∃ inner a, TaskOf g w ty inner ∧ StreamOf g w inner a := by
  unfold Call.isTaskOfStream? Call.taskResult?
  constructor
  · intro h
    obtain ⟨o, ho, h⟩ := Option.bind_eq_some_iff.mp h
    obtain ⟨b, hb, ho⟩ := Option.bind_eq_some_iff.mp ho
    cases b with
    | false => cases ho; cases h
    | true =>
      obtain ⟨inner, hinner⟩ := isGenericTask?_eq_true_iff.mp hb
      simp only [↓reduceIte, hinner.firstArgument?, Option.some.injEq] at ho
      subst ho
      obtain ⟨a, ha⟩ := isStream?_eq_true_iff.mp h
      exact ⟨inner, a, hinner, ha⟩
  · rintro ⟨inner, a, hinner, ha⟩
    rw [isGenericTask?_eq_true_iff.mpr ⟨inner, hinner⟩]
    simp only [Option.bind_eq_bind, Option.bind_some, ↓reduceIte, hinner.firstArgument?]
    exact isStream?_eq_true_iff.mpr ⟨a, ha⟩

/-! ## Well-known types apart from each other -/

structure Separated (g : TypeGraph) (w : WellKnown) : Prop where
  task : ∀ {ty}, w.isTask ty = true → ∃ head, g.form? ty = some (.declared head)
  cancellationToken : ∀ {ty}, w.isCancellationToken ty = true →
    ∃ head, g.form? ty = some (.declared head)
  streams : ∀ {d}, w.genericTask = some d → w.asyncEnumerable ≠ some d ∧ w.channelReader ≠ some d

private theorem resolve_ok {names : WellKnownNames} (h : resolve g names = .ok w) :
    w.task = g.lookup names.task ∧ w.genericTask = g.lookup names.genericTask ∧
      w.asyncEnumerable = g.lookup names.asyncEnumerable ∧
      w.channelReader = g.lookup names.channelReader ∧
      w.cancellationToken = g.lookup names.cancellationToken := by
  unfold resolve at h
  cases h₁ : marker g names.hubMarker with
  | error e => rw [h₁] at h; cases h
  | ok hub =>
    cases h₂ : marker g names.receiverMarker with
    | error e => rw [h₁, h₂] at h; cases h
    | ok receiver =>
      cases h₃ : marker g names.dataTypeMarker with
      | error e => rw [h₁, h₂, h₃] at h; cases h
      | ok dataType =>
        rw [h₁, h₂, h₃] at h
        cases h
        exact ⟨rfl, rfl, rfl, rfl, rfl⟩

/-- One type is not found under two names. -/
theorem lookup_inj (hg : Coherent g) {name name' : String} (h : g.lookup name = some ty)
    (h' : g.lookup name' = some ty) : name = name' := by
  obtain ⟨head, hf, rfl⟩ := hg.lookup h
  obtain ⟨head', hf', rfl⟩ := hg.lookup h'
  rw [hf] at hf'
  cases hf'
  rfl

theorem resolve_isTask (hg : Coherent g) {names : WellKnownNames} (h : resolve g names = .ok w)
    (hty : w.isTask ty = true) : ∃ head, g.form? ty = some (.declared head) := by
  obtain ⟨head, hf, _⟩ := hg.lookup ((resolve_ok h).1 ▸ of_decide_eq_true hty)
  exact ⟨head, hf⟩

/-- Tasks share the metadata name of their definition. -/
theorem TaskOf.metadataName? (hg : Coherent g) {names : WellKnownNames}
    (h : resolve g names = .ok w) (ht : TaskOf g w ty a) :
    g.metadataName? ty = some names.genericTask := by
  obtain ⟨d, as, hd, hf⟩ := ht
  obtain ⟨head, hhead, hname⟩ := hg.lookup ((resolve_ok h).2.1 ▸ hd)
  rw [metadataName?_of_constructed hf hhead, hname]

theorem resolve_separated (hg : Coherent g) {names : WellKnownNames}
    (hnames : names.genericTask ≠ names.asyncEnumerable ∧ names.genericTask ≠ names.channelReader)
    (h : resolve g names = .ok w) : Separated g w := by
  obtain ⟨_, hgeneric, hsequence, hreader, htoken⟩ := resolve_ok h
  refine ⟨resolve_isTask hg h, ?_, ?_⟩
  · intro ty hty
    obtain ⟨head, hf, _⟩ := hg.lookup (htoken ▸ of_decide_eq_true hty)
    exact ⟨head, hf⟩
  · intro d hd
    rw [hgeneric] at hd
    constructor
    · intro hs
      exact hnames.1 (lookup_inj hg hd (hsequence ▸ hs))
    · intro hs
      exact hnames.2 (lookup_inj hg hd (hreader ▸ hs))

/-- A test that only declared types pass. -/
theorem eq_false_of_constructed {test : Bool} {as : List TypeId}
    (h : test = true → ∃ head, g.form? ty = some (.declared head))
    (hf : g.form? ty = some (.constructed d as)) : test = false := by
  by_contra ht
  obtain ⟨head, hd⟩ := h (by simpa using ht)
  rw [hf] at hd
  cases hd

theorem TaskOf.not_isTask (hg : Coherent g) {names : WellKnownNames} (h : resolve g names = .ok w)
    (ht : TaskOf g w ty a) : w.isTask ty = false := by
  obtain ⟨_, _, _, hf⟩ := ht
  exact eq_false_of_constructed (resolve_isTask hg h) hf

theorem Separated.not_isTask (hw : Separated g w) {as : List TypeId}
    (hf : g.form? ty = some (.constructed d as)) : w.isTask ty = false :=
  eq_false_of_constructed hw.task hf

theorem Separated.not_isCancellationToken (hw : Separated g w) {as : List TypeId}
    (hf : g.form? ty = some (.constructed d as)) : w.isCancellationToken ty = false :=
  eq_false_of_constructed hw.cancellationToken hf

theorem Separated.isGenericTask?_of_stream (hw : Separated g w) (h : StreamOf g w ty a) :
    w.isGenericTask? g ty = some false := by
  obtain ⟨d, as, hd, hf⟩ := h
  rw [isGenericTask?, isConstructedFrom?_of_form? _ hf]
  have hne : w.genericTask ≠ some d := by
    intro hg
    exact hd.elim (hw.streams hg).1 (hw.streams hg).2
  simp [hne]

theorem Separated.isStream?_of_task (hw : Separated g w) (h : TaskOf g w ty a) :
    w.isStream? g ty = some false := by
  obtain ⟨d, as, hd, hf⟩ := h
  rw [isStream?, isConstructedFrom?_of_form? _ hf, isConstructedFrom?_of_form? _ hf]
  simp [(hw.streams hd).1, (hw.streams hd).2]

end HubBindings.WellKnown
