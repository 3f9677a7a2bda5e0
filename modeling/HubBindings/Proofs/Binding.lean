import HubBindings.Binding
import HubBindings.Proofs.Sequencing

/-!
What binding does with one method of a contract: it is bound, with every parameter and the result
rendered where they stand (`Binds`), or it is left out for one of three reasons
(`bindMethodBy?_error`).
-/

namespace HubBindings.Binding

open Sequencing

instance : Std.TransOrd TypeImport :=
  inferInstanceAs (Std.TransCmp
    (compareLex (compareOn TypeImport.nameSpace) (compareOn TypeImport.name)))

instance : Std.LawfulEqOrd TypeImport where
  compare_self := Std.ReflCmp.compare_self
  eq_of_compare {a b} h := by
    obtain ⟨hns, hn⟩ := Ordering.then_eq_eq.mp h
    cases a
    cases b
    cases Std.LawfulEqOrd.eq_of_compare hns
    cases Std.LawfulEqOrd.eq_of_compare hn
    rfl

variable {g : TypeGraph} {w : WellKnown} {render : Renderer}

/-- A type has a rendering at a position. -/
def Renders (render : Renderer) (position : Position) (ty : TypeId) (text : String) : Prop :=
  ∃ r, render position ty = some (.ok r) ∧ r.text = text

/-- A type has no rendering at a position, for a reason. -/
def Refuses (render : Renderer) (position : Position) (ty : TypeId) (e : RenderError) : Prop :=
  render position ty = some (.error e)

/-- A parameter keeps its name and has its type rendered as an argument. -/
structure BindsParameter (g : TypeGraph) (render : Renderer) (p : Parameter) (b : BoundParameter) :
    Prop where
  name : b.name = p.name
  text : Renders render .argument p.type b.text
  display : g.display? p.type = some b.display

/-- A contract method as it is bound: its names, its shape, all parameters but the cancellation
tokens, and its result rendered where the role has results. -/
structure Binds (g : TypeGraph) (w : WellKnown) (render : Renderer) (role : Role)
    (m : ContractMethod) (b : BoundMethod) : Prop where
  admitted : Call.violation? g w role m.call.shape m.returns = some none
  localName : b.localName = m.localName
  wireName : b.wireName = m.wireName
  shape : b.shape = m.call.shape
  parameters : List.Forall₂ (BindsParameter g render) (wireParameters w m) b.parameters
  returnText : Renders render (returnPosition role) m.returns b.returnText
  returnDisplay : g.display? m.returns = some b.returnDisplay

variable {c : Contract} {m : ContractMethod}

private theorem bindParametersBy?_ok {references all : References} {ps : List Parameter}
    {bs : List BoundParameter}
    (h : bindParametersBy? g render c m references ps = some (.ok (bs, all))) :
    List.Forall₂ (BindsParameter g render) ps bs := by
  induction ps generalizing references bs with
  | nil => cases h; exact .nil
  | cons p ps ih =>
    simp only [bindParametersBy?] at h
    obtain ⟨rendered, hr, h⟩ := Option.bind_eq_some_iff.mp h
    cases rendered with
    | error e => cases h
    | ok r =>
      obtain ⟨display, hd, h⟩ := Option.bind_eq_some_iff.mp h
      obtain ⟨rest, hrest, h⟩ := Option.bind_eq_some_iff.mp h
      cases rest with
      | error d => cases h
      | ok q =>
        cases h
        exact .cons ⟨rfl, ⟨r, hr, rfl⟩, hd⟩ (ih hrest)

theorem boundParameters_names {ps : List Parameter} {bs : List BoundParameter}
    (h : List.Forall₂ (BindsParameter g render) ps bs) : ps.map (·.name) = bs.map (·.name) :=
  map_eq_map_of_forall₂ (h.imp fun _ _ hp => hp.name.symm)

private theorem bindsParameter_rightUnique : Relator.RightUnique (BindsParameter g render) := by
  rintro p ⟨name, text, display⟩ ⟨name', text', display'⟩ h h'
  obtain ⟨r, hr, htext⟩ := h.text
  obtain ⟨r', hr', htext'⟩ := h'.text
  cases hr.symm.trans hr'
  cases h.display.symm.trans h'.display
  cases h.name.trans h'.name.symm
  cases htext.symm.trans htext'
  rfl

/-- The parameters of a method are bound in one way, whatever the role. -/
theorem Binds.parameters_eq {role role' : Role} {b b' : BoundMethod} (h : Binds g w render role m b)
    (h' : Binds g w render role' m b') : b'.parameters = b.parameters :=
  bindsParameter_rightUnique.forall₂ h'.parameters h.parameters

/-- A method is bound in one way. -/
theorem Binds.unique {role : Role} {b b' : BoundMethod} (h : Binds g w render role m b)
    (h' : Binds g w render role m b') : b' = b := by
  have hparameters := h.parameters_eq h'
  obtain ⟨_, hlocal, hwire, hshape, _, ⟨r, hr, htext⟩, hdisplay⟩ := h
  obtain ⟨_, hlocal', hwire', hshape', _, ⟨r', hr', htext'⟩, hdisplay'⟩ := h'
  cases hr.symm.trans hr'
  cases b
  cases b'
  simp_all

/-- The first parameter without a rendering is the one reported. -/
theorem bindParametersBy?_error {references : References} {ps : List Parameter} {d : Diagnostic}
    (h : bindParametersBy? g render c m references ps = some (.error d)) :
    ∃ before p after e, ps = before ++ p :: after ∧
      (∀ q ∈ before, ∃ text, Renders render .argument q.type text) ∧
      Refuses render .argument p.type e ∧ d = typeReport c m (some p.name) e := by
  induction ps generalizing references with
  | nil => cases h
  | cons p ps ih =>
    simp only [bindParametersBy?] at h
    obtain ⟨rendered, hr, h⟩ := Option.bind_eq_some_iff.mp h
    cases rendered with
    | error e =>
      cases h
      exact ⟨[], p, ps, e, rfl, by simp, hr, rfl⟩
    | ok r =>
      obtain ⟨_, _, h⟩ := Option.bind_eq_some_iff.mp h
      obtain ⟨rest, hrest, h⟩ := Option.bind_eq_some_iff.mp h
      cases rest with
      | ok q => cases h
      | error d' =>
        cases h
        obtain ⟨before, q, after, e, hps, hbefore, hq, hd⟩ := ih hrest
        refine ⟨p :: before, q, after, e, by rw [hps]; rfl, ?_, hq, hd⟩
        intro x hx
        rcases List.mem_cons.mp hx with rfl | hx
        · exact ⟨_, r, hr, rfl⟩
        · exact hbefore x hx

theorem bindMethodBy?_ok {b : BoundMethod} {references : References}
    (h : bindMethodBy? g w render c m = some (.ok (b, references))) :
    Binds g w render c.role m b := by
  unfold bindMethodBy? at h
  obtain ⟨violation, hv, h⟩ := Option.bind_eq_some_iff.mp h
  cases violation with
  | some message => cases h
  | none =>
    obtain ⟨bound, hp, h⟩ := Option.bind_eq_some_iff.mp h
    cases bound with
    | error d => cases h
    | ok q =>
      obtain ⟨rendered, hr, h⟩ := Option.bind_eq_some_iff.mp h
      cases rendered with
      | error e => cases h
      | ok r =>
        obtain ⟨display, hd, h⟩ := Option.bind_eq_some_iff.mp h
        cases h
        exact ⟨hv, rfl, rfl, rfl, bindParametersBy?_ok hp, ⟨r, hr, rfl⟩, hd⟩

/-- Why a method is left out, with the report about it. -/
inductive LeftOut (g : TypeGraph) (w : WellKnown) (render : Renderer) (subject : String)
    (role : Role) (m : ContractMethod) : Diagnostic → Prop
  /-- The role does not admit the shape. -/
  | shape {message : String} :
      Call.violation? g w role m.call.shape m.returns = some (some message) →
        LeftOut g w render subject role m
          { kind := .shapeViolation, subject, method := some m.wireName, message }
  /-- A parameter is the first without a rendering. -/
  | parameter {before after : List Parameter} {p : Parameter} {e : RenderError} :
      Call.violation? g w role m.call.shape m.returns = some none →
      wireParameters w m = before ++ p :: after →
      (∀ q ∈ before, ∃ text, Renders render .argument q.type text) →
      Refuses render .argument p.type e →
        LeftOut g w render subject role m
          { kind := .unsupportedType, subject, method := some m.wireName,
            parameter := some p.name, message := e.message }
  /-- The parameters have renderings, but the result has none. -/
  | result {e : RenderError} :
      Call.violation? g w role m.call.shape m.returns = some none →
      (∀ q ∈ wireParameters w m, ∃ text, Renders render .argument q.type text) →
      Refuses render (returnPosition role) m.returns e →
        LeftOut g w render subject role m
          { kind := .unsupportedType, subject, method := some m.wireName, message := e.message }

/-- A method that is left out is not bound. -/
theorem Binds.not_leftOut {role : Role} {b : BoundMethod} (h : Binds g w render role m b)
    {subject : String} {d : Diagnostic} : ¬ LeftOut g w render subject role m d := by
  intro hout
  cases hout with
  | shape hv => cases h.admitted.symm.trans hv
  | parameter _ hps _ hrefused =>
    obtain ⟨bp, _, hbinds⟩ := exists_of_mem_left h.parameters
      (hps ▸ List.mem_append_right _ List.mem_cons_self)
    obtain ⟨r, hr, _⟩ := hbinds.text
    cases hr.symm.trans hrefused
  | result _ _ hrefused =>
    obtain ⟨r, hr, _⟩ := h.returnText
    cases hr.symm.trans hrefused

theorem LeftOut.subject_eq {subject : String} {role : Role} {d : Diagnostic}
    (h : LeftOut g w render subject role m d) : d.subject = subject := by
  cases h <;> rfl

theorem bindMethodBy?_error {d : Diagnostic} (h : bindMethodBy? g w render c m = some (.error d)) :
    LeftOut g w render c.qualifiedName c.role m d := by
  unfold bindMethodBy? at h
  obtain ⟨violation, hv, h⟩ := Option.bind_eq_some_iff.mp h
  cases violation with
  | some message => cases h; exact .shape hv
  | none =>
    obtain ⟨bound, hp, h⟩ := Option.bind_eq_some_iff.mp h
    cases bound with
    | error d' =>
      cases h
      obtain ⟨before, p, after, e, hps, hbefore, hrefused, rfl⟩ := bindParametersBy?_error hp
      exact .parameter hv hps hbefore hrefused
    | ok q =>
      obtain ⟨rendered, hr, h⟩ := Option.bind_eq_some_iff.mp h
      cases rendered with
      | error e =>
        cases h
        refine .result hv ?_ hr
        intro p hmem
        obtain ⟨b, _, hb⟩ := exists_of_mem_left (bindParametersBy?_ok hp) hmem
        exact ⟨b.text, hb.text⟩
      | ok r =>
        obtain ⟨_, _, h⟩ := Option.bind_eq_some_iff.mp h
        cases h

/-- A bound contract keeps the names of the contract, and its methods and reports come from one
outcome for each method. -/
theorem bindBy?_eq_some {bc : BoundContract} {ds : List Diagnostic}
    (h : bindBy? g w render c = some (bc, ds)) :
    bc.name = c.name ∧ bc.nameSpace = c.nameSpace ∧ bc.qualifiedName = c.qualifiedName ∧
      bc.role = c.role ∧
      ∃ outcomes,
        List.Forall₂ (fun m o => bindMethodBy? g w render c m = some o) c.methods outcomes ∧
        bc.methods = (kept outcomes).map (·.1) ∧ ds = reports outcomes := by
  unfold bindBy? at h
  obtain ⟨outcomes, ho, h⟩ := Option.bind_eq_some_iff.mp h
  obtain ⟨imports, _, h⟩ := Option.bind_eq_some_iff.mp h
  cases h
  exact ⟨rfl, rfl, rfl, rfl, outcomes, mapM_eq_some_iff.mp ho, rfl, rfl⟩

private theorem kept_binds {ms : List ContractMethod}
    {outcomes : List (Except Diagnostic (BoundMethod × References))}
    (h : List.Forall₂ (fun m o => bindMethodBy? g w render c m = some o) ms outcomes) :
    ∃ ms', ms'.Sublist ms ∧
      List.Forall₂ (Binds g w render c.role) ms' ((kept outcomes).map (·.1)) := by
  induction h with
  | nil => exact ⟨[], .slnil, .nil⟩
  | @cons m o ms os hm _ ih =>
    obtain ⟨ms', hsub, hall⟩ := ih
    cases o with
    | ok q => exact ⟨m :: ms', hsub.cons_cons m, .cons (bindMethodBy?_ok hm) hall⟩
    | error d => exact ⟨ms', hsub.cons m, hall⟩

/-- The bound methods of a contract are some of its methods, in their order. -/
theorem bindBy?_binds {bc : BoundContract} {ds : List Diagnostic}
    (h : bindBy? g w render c = some (bc, ds)) :
    ∃ ms, ms.Sublist c.methods ∧ List.Forall₂ (Binds g w render c.role) ms bc.methods := by
  obtain ⟨_, _, _, _, outcomes, ho, hmethods, _⟩ := bindBy?_eq_some h
  rw [hmethods]
  exact kept_binds ho

/-- A method of a contract is bound or left out. -/
theorem bindBy?_settles {bc : BoundContract} {ds : List Diagnostic}
    (h : bindBy? g w render c = some (bc, ds)) (hm : m ∈ c.methods) :
    (∃ bm ∈ bc.methods, Binds g w render c.role m bm) ∨
      ∃ d, LeftOut g w render c.qualifiedName c.role m d := by
  obtain ⟨_, _, _, _, outcomes, ho, hmethods, _⟩ := bindBy?_eq_some h
  obtain ⟨o, hmem, hbind⟩ := exists_of_mem_left ho hm
  cases o with
  | error d => exact .inr ⟨d, bindMethodBy?_error hbind⟩
  | ok bound =>
    obtain ⟨bm, references⟩ := bound
    have hkept : (bm, references) ∈ kept outcomes := List.mem_filterMap.mpr ⟨_, hmem, rfl⟩
    exact .inl ⟨bm, hmethods ▸ List.mem_map_of_mem hkept, bindMethodBy?_ok hbind⟩

/-- All reports about a contract name it. -/
theorem bindBy?_subject {bc : BoundContract} {ds : List Diagnostic}
    (h : bindBy? g w render c = some (bc, ds)) {d : Diagnostic} (hd : d ∈ ds) :
    d.subject = c.qualifiedName := by
  obtain ⟨_, _, _, _, outcomes, ho, _, rfl⟩ := bindBy?_eq_some h
  obtain ⟨o, hmem, hreport⟩ := List.mem_filterMap.mp hd
  obtain ⟨m, _, hbind⟩ := exists_of_mem_right ho hmem
  cases o with
  | ok q => cases hreport
  | error e =>
    cases hreport
    exact (bindMethodBy?_error hbind).subject_eq

theorem bindAllBy?_eq_some {cs : List Contract} {bcs : List BoundContract} {ds : List Diagnostic}
    (h : bindAllBy? g w render cs = some (bcs, ds)) :
    ∃ bound, List.Forall₂ (fun c b => bindBy? g w render c = some b) cs bound ∧
      bcs = bound.map (·.1) ∧ ds = bound.flatMap (·.2) := by
  unfold bindAllBy? at h
  obtain ⟨bound, hb, h⟩ := Option.bind_eq_some_iff.mp h
  cases h
  exact ⟨bound, mapM_eq_some_iff.mp hb, rfl, rfl⟩

theorem bindAllBy?_of_forall₂ {cs : List Contract} {bound : List (BoundContract × List Diagnostic)}
    (h : List.Forall₂ (fun c b => bindBy? g w render c = some b) cs bound) :
    bindAllBy? g w render cs = some (bound.map (·.1), bound.flatMap (·.2)) := by
  rw [bindAllBy?, mapM_eq_some_iff.mpr h]
  rfl

end HubBindings.Binding
