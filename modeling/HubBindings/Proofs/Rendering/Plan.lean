import HubBindings.Proofs.Sequencing

/-!
What a rule does with a type, said once for all rules.

A `Plan` says what is noted, which types are rendered below the type, and what text stands around
their renderings. `Rule.plan?` looks up the plan of a rule, and by `Rule.apply_eq` a rule that is
applied does nothing but carry out its plan. `Rule.plan?_does` says what the plans note and where
they go on.
-/

namespace HubBindings

/-- Something that a rendering notes. -/
inductive Note where
  | wrapper (x : Wrapper)
  | dataType (d : TypeId)
  deriving DecidableEq, Repr

namespace References

def note (r : References) : Note → References
  | .wrapper x => r.addWrapper x
  | .dataType d => r.addDataType d

def noteAll (r : References) (ns : List Note) : References := ns.foldl note r

@[simp] theorem noteAll_nil (r : References) : r.noteAll [] = r := rfl

theorem noteAll_append (r : References) (ns ms : List Note) :
    r.noteAll (ns ++ ms) = (r.noteAll ns).noteAll ms := List.foldl_append

end References

/-! ## Plans -/

/-- A type that is rendered below another one: inside of it, or where the other one stands. -/
structure Part where
  type : TypeId
  nested : Bool := true
  deriving DecidableEq, Repr

/-- Where a part stands if the whole type stands at `p`. -/
def Part.position (p : Position) (part : Part) : Position := if part.nested then .nested else p

/-- Texts around others. -/
structure Surround where
  opening : String := ""
  separator : String := ""
  closing : String := ""
  deriving DecidableEq, Repr

def Surround.around (s : Surround) (texts : List String) : String :=
  s.opening ++ s.separator.intercalate texts ++ s.closing

/-- A text with others in angle brackets. -/
def Surround.angles (outer : String) : Surround :=
  { opening := outer ++ "<", separator := ", ", closing := ">" }

/-- What a rule does with a type. -/
inductive Plan where
  | fail (e : RenderError)
  | write (notes : List Note) (parts : List Part) (text : Surround)
  deriving DecidableEq, Repr

namespace Plan

/-- A text alone. -/
def text (s : String) (notes : List Note := []) : Plan := write notes [] { opening := s }

/-- A text around the rendering of a type that stands inside. -/
def inside (a : TypeId) (s : Surround) (notes : List Note := []) : Plan :=
  write notes [{ type := a }] s

def parts : Plan → List Part
  | fail _ => []
  | write _ parts _ => parts

end Plan

def Part.render (render : TypeId → RenderM String) (part : Part) : RenderM String :=
  if part.nested then RenderM.nested (render part.type) else render part.type

def RenderM.noteAll (ns : List Note) : RenderM Unit :=
  modify fun c => { c with references := c.references.noteAll ns }

/-- Carries out a plan. -/
def Plan.run (render : TypeId → RenderM String) : Plan → RenderM String
  | fail e => throw e
  | write notes parts text => do
    RenderM.noteAll notes
    return text.around (← parts.mapM (·.render render))

section Plans

variable (g : TypeGraph) (w : WellKnown) (p : Position) (ty : TypeId)

/-- A plan for the first argument of a type that has to have one. -/
def Plan.ofArgument? (plan? : TypeId → Option Plan) : Option Plan := do
  match ← g.firstArgument? ty with
  | some a => plan? a
  | none => return .fail (.missingTypeArgument (← g.metadataName? ty))

def Plan.refusal? : Option Plan := do return .fail (.unsupported (← g.display? ty))

/-- The text that a table has for the metadata name of a type. -/
def Plan.ofTable? (texts : List (String × String)) : Option Plan := do
  match texts.lookup (← g.metadataName? ty) with
  | some text => return .text text
  | none => Plan.refusal? g ty

def CustomRule.plan? (rule : CustomRule) : Option Plan :=
  match rule.action with
  | .text => some (.text rule.text)
  | .wrap => Plan.ofArgument? g ty fun a => some (.inside a (.angles rule.text))
  | .same => Plan.ofArgument? g ty fun a =>
    some (.write [] [{ type := a, nested := false }] (.angles rule.text))
  | .position => some (.text (rule.text ++ ":" ++ p.name))
  | .data => do return .text rule.text [.dataType (← g.definition? ty)]
  | .subject => some (.text rule.text [.wrapper .subject])
  | .fail => some (.fail (.unsupported rule.text))

def CollectionKind.plan? : CollectionKind → Option Plan
  | .array e => some (.inside e { closing := "[]" })
  | .sequence => Plan.ofArgument? g ty fun a => some (.inside a { closing := "[]" })
  | .dictionary => do
    match ← g.arguments? ty with
    | [key, value] =>
      return .write [] [{ type := key }, { type := value }]
        { opening := "\x7b [key: ", separator := "]: ", closing := " \x7d" }
    | _ => return .fail (.missingTypeArgument (← g.metadataName? ty))
  | .nullable => Plan.ofArgument? g ty fun a =>
    some (.inside a { opening := "(", closing := " | undefined)" })

/-- The plan of a rule for a type that stands at `p`. -/
def Rule.plan? : Rule → Option Plan
  | .override texts => Plan.ofTable? g ty texts
  | .custom rule => rule.plan? g p ty
  | .task => some (.text "Promise<void>")
  | .genericTask => Plan.ofArgument? g ty fun inner =>
    if p = .hubReturn then do
      if ← w.isStream? g inner then
        Plan.ofArgument? g inner fun element =>
          some (.inside element (.angles "IStreamResult") [.wrapper .streamResult])
      else return .inside inner (.angles "Promise")
    else some (.inside inner (.angles "Promise"))
  | .stream => Plan.ofArgument? g ty fun element =>
    let wrapper : Wrapper := if p = .hubReturn then .streamResult else .subject
    some (.inside element (.angles wrapper.identifier) [.wrapper wrapper])
  | .primitive => Plan.ofTable? g ty primitiveTexts
  | .collection => do
    match ← CollectionKind.of? g ty with
    | some kind => kind.plan? g ty
    | none => Plan.refusal? g ty
  | .dataType => do
    let name ← g.name? ty
    let d ← g.definition? ty
    match ← g.arguments? ty with
    | [] => return .text name [.dataType d]
    | arguments => return .write [.dataType d] (arguments.map ({ type := · })) (.angles name)

end Plans

/-! ## Rules carry out their plans -/

open RenderM Sequencing

section CarriesOut

variable {render : TypeId → RenderM String} {g : TypeGraph} {w : WellKnown} {p : Position}
  {ty : TypeId} {x : RenderM String} {o : Option Plan}

theorem Surround.around_nil (s : Surround) : s.around [] = s.opening ++ s.closing := by
  simp [Surround.around]

theorem Surround.around_singleton (s : Surround) (t : String) :
    s.around [t] = s.opening ++ t ++ s.closing := by
  simp [Surround.around]

theorem Surround.angles_around (outer : String) (texts : List String) :
    (Surround.angles outer).around texts = inAngles outer (", ".intercalate texts) := by
  simp [Surround.angles, Surround.around, inAngles]

theorem Surround.angles_around_singleton (outer t : String) :
    (Surround.angles outer).around [t] = inAngles outer t := by
  rw [Surround.angles_around, String.intercalate_singleton]

theorem RenderM.noteAll_nil : noteAll [] = pure () := rfl

theorem RenderM.noteDataType_eq :
    noteDataType g ty = liftM (g.definition? ty) >>= fun d => noteAll [.dataType d] := rfl

/-- It makes no difference whether something is noted before or after a look-up. -/
theorem RenderM.noteAll_lift_bind {α : Type} (ns : List Note) (l : Option α)
    (k : α → RenderM String) :
    (noteAll ns >>= fun _ => liftM l >>= k) = liftM l >>= fun a => noteAll ns >>= fun _ => k a := by
  cases l <;> rfl

theorem Plan.run_text (s : String) (notes : List Note) :
    (Plan.text s notes).run render = noteAll notes >>= fun _ => pure s := by
  simp [Plan.text, Plan.run, Surround.around_nil]

theorem Plan.run_inside {a : TypeId} {s : Surround} {notes : List Note} {text : String → String}
    (h : ∀ t, s.around [t] = text t) :
    (Plan.inside a s notes).run render =
      noteAll notes >>= fun _ => nested (render a) >>= fun t => pure (text t) := by
  simp only [Plan.inside, Plan.run, Part.render, List.mapM_cons, List.mapM_nil, bind_assoc,
    pure_bind, h, ↓reduceIte]

/-- At position `p` the rendering `x` carries out a plan; without a plan it has no result. -/
def CarriesOut (render : TypeId → RenderM String) (p : Position) (x : RenderM String)
    (o : Option Plan) : Prop :=
  ∀ refs, x.run ⟨p, refs⟩ = o.bind fun plan => (plan.run render).run ⟨p, refs⟩

namespace CarriesOut

theorem of_eq {plan : Plan} (h : x = plan.run render) : CarriesOut render p x (some plan) :=
  fun _ => by rw [h, Option.bind_some]

theorem lift_bind {α : Type} {l : Option α} {k : α → RenderM String} {plan? : α → Option Plan}
    (h : ∀ a, CarriesOut render p (k a) (plan? a)) :
    CarriesOut render p (liftM l >>= k) (l >>= plan?) := by
  intro refs
  rw [run_lift_bind]
  cases l with
  | none => rfl
  | some a => exact h a refs

theorem get_bind {k : Context → RenderM String} (h : ∀ refs, CarriesOut render p (k ⟨p, refs⟩) o) :
    CarriesOut render p (get >>= k) o := fun refs => h refs refs

theorem throw (e : RenderError) : CarriesOut render p (throw e) (some (.fail e)) := .of_eq rfl

theorem text (s : String) (notes : List Note) :
    CarriesOut render p (noteAll notes >>= fun _ => pure s) (some (.text s notes)) :=
  .of_eq (Plan.run_text s notes).symm

private theorem text_alone (s : String) : CarriesOut render p (pure s) (some (.text s)) :=
  .text s []

theorem inside {a : TypeId} {s : Surround} (notes : List Note) {text : String → String}
    (h : ∀ t, s.around [t] = text t) :
    CarriesOut render p (noteAll notes >>= fun _ => nested (render a) >>= fun t => pure (text t))
      (some (.inside a s notes)) :=
  .of_eq (Plan.run_inside h).symm

private theorem inside_alone {a : TypeId} {s : Surround} {text : String → String}
    (h : ∀ t, s.around [t] = text t) :
    CarriesOut render p (nested (render a) >>= fun t => pure (text t)) (some (.inside a s)) :=
  .inside [] h

theorem refuse : CarriesOut render p (refuse g ty) (Plan.refusal? g ty) :=
  .lift_bind fun _ => .throw _

private theorem ofArgument {k : TypeId → RenderM String} {plan? : TypeId → Option Plan}
    (h : ∀ a, CarriesOut render p (k a) (plan? a)) :
    CarriesOut render p (typeArgument g ty >>= k) (Plan.ofArgument? g ty plan?) := by
  rw [typeArgument, bind_assoc]
  refine .lift_bind fun found => ?_
  cases found with
  | some a =>
    rw [pure_bind]
    exact h a
  | none =>
    rw [bind_assoc]
    exact .lift_bind fun _ _ => rfl

private theorem ofTable (texts : List (String × String)) :
    CarriesOut render p (do
      match texts.lookup (← liftM (g.metadataName? ty)) with
      | some text => return text
      | none => RenderM.refuse g ty) (Plan.ofTable? g ty texts) := by
  refine .lift_bind fun name => ?_
  cases texts.lookup name with
  | some text => exact .text_alone text
  | none => exact .refuse

end CarriesOut

theorem CustomRule.apply_carriesOut (rule : CustomRule) :
    CarriesOut render p (rule.apply g render ty) (rule.plan? g p ty) := by
  unfold CustomRule.apply CustomRule.plan?
  cases rule.action with
  | text => exact .text_alone _
  | wrap => exact .ofArgument fun a => .inside_alone (Surround.angles_around_singleton _)
  | same =>
    refine .ofArgument fun a => .of_eq ?_
    simp [Plan.run, Part.render, Surround.angles_around_singleton, noteAll_nil]
  | position => exact .get_bind fun _ => .text_alone _
  | data =>
    simp only [noteDataType_eq, bind_assoc]
    exact .lift_bind fun d => .text _ [.dataType d]
  | subject => exact .text _ [.wrapper .subject]
  | fail => exact .throw _

theorem CollectionKind.apply_carriesOut (kind : CollectionKind) :
    CarriesOut render p (kind.apply g render ty) (kind.plan? g ty) := by
  unfold CollectionKind.apply CollectionKind.plan?
  cases kind with
  | array e => exact .inside_alone fun t => by simp [Surround.around_singleton]
  | sequence =>
    exact .ofArgument fun a => .inside_alone fun t => by simp [Surround.around_singleton]
  | dictionary =>
    refine .lift_bind fun as => ?_
    rcases as with _ | ⟨key, _ | ⟨value, _ | _⟩⟩
    · exact .lift_bind fun _ => .throw _
    · exact .lift_bind fun _ => .throw _
    · refine .of_eq ?_
      simp [Plan.run, Part.render, Surround.around, noteAll_nil, String.append_assoc]
    · exact .lift_bind fun _ => .throw _
  | nullable =>
    exact .ofArgument fun a => .inside_alone fun t => by simp [Surround.around_singleton]

theorem Rule.apply_carriesOut (rule : Rule) :
    CarriesOut render p (rule.apply g w render ty) (rule.plan? g w p ty) := by
  cases rule with
  | override texts => exact .ofTable texts
  | custom rule => exact rule.apply_carriesOut
  | task => exact .text_alone _
  | genericTask =>
    refine .ofArgument fun inner => .get_bind fun _ => ?_
    have hpromise : CarriesOut render p (do return inAngles "Promise" (← nested (render inner)))
        (some (.inside inner (.angles "Promise"))) :=
      .inside_alone (Surround.angles_around_singleton _)
    split
    · refine .lift_bind fun b => ?_
      cases b with
      | true =>
        exact .ofArgument fun element =>
          .inside [.wrapper .streamResult] (Surround.angles_around_singleton _)
      | false => exact hpromise
    · exact hpromise
  | stream =>
    exact .ofArgument fun element => .get_bind fun _ =>
      .inside [.wrapper _] (Surround.angles_around_singleton _)
  | primitive => exact .ofTable primitiveTexts
  | collection =>
    refine .lift_bind fun kind => ?_
    cases kind with
    | some kind => exact kind.apply_carriesOut
    | none => exact .refuse
  | dataType =>
    unfold Rule.apply
    simp only [noteDataType_eq, bind_assoc, noteAll_lift_bind]
    refine .lift_bind fun name => .lift_bind fun d => .lift_bind fun as => ?_
    cases as with
    | nil => exact .text name [.dataType d]
    | cons a as =>
      refine .of_eq ?_
      simp [Plan.run, Part.render, Surround.angles_around, Function.comp_def]

/-- To apply a rule is to carry out its plan. -/
theorem Rule.apply_eq (rule : Rule) :
    rule.apply g w render ty =
      (do (← liftM (rule.plan? g w (← get).position ty)).run render : RenderM String) :=
  funext fun c => (rule.apply_carriesOut c.references).trans (run_lift_bind _ _ _).symm

end CarriesOut

/-! ## What plans say -/

/-- Whether a rule notes a stream that the caller consumes, where a hub returns a type. -/
def Rule.Streams (g : TypeGraph) (w : WellKnown) (ty : TypeId) : Rule → Prop
  | .stream => True
  | .genericTask =>
    ∃ inner, g.firstArgument? ty = some (some inner) ∧ w.isStream? g inner = some true
  | _ => False

/-- The types inside of a collection. -/
def CollectionKind.Holds (g : TypeGraph) (ty a : TypeId) : CollectionKind → Prop
  | .array e => a = e
  | .sequence => g.firstArgument? ty = some (some a)
  | .dictionary => ∃ as, g.arguments? ty = some as ∧ a ∈ as
  | .nullable => g.firstArgument? ty = some (some a)

namespace Rule

variable (g : TypeGraph) (w : WellKnown) (p : Position) (ty : TypeId)

/-- What a rule notes about a type itself. -/
def Notes (n : Note) : Rule → Prop
  | custom rule =>
    rule.action = .data ∧ (∃ d, g.definition? ty = some d ∧ n = .dataType d) ∨
      rule.action = .subject ∧ n = .wrapper .subject
  | genericTask => p = .hubReturn ∧ genericTask.Streams g w ty ∧ n = .wrapper .streamResult
  | stream => n = .wrapper (if p = .hubReturn then .streamResult else .subject)
  | dataType => ∃ d, g.definition? ty = some d ∧ n = .dataType d
  | _ => False

/-- Where a rule goes on below a type: to a type `a` that stands at `p'`. -/
def Descends (p' : Position) (a : TypeId) : Rule → Prop
  | custom rule =>
    g.firstArgument? ty = some (some a) ∧
      (rule.action = .wrap ∧ p' = .nested ∨ rule.action = .same ∧ p' = p)
  | genericTask => p' = .nested ∧ ∃ inner, g.firstArgument? ty = some (some inner) ∧
      -- where a hub returns a task of a stream, the stream itself is not rendered
      if p = .hubReturn ∧ w.isStream? g inner = some true
      then g.firstArgument? inner = some (some a) else a = inner
  | stream => p' = .nested ∧ g.firstArgument? ty = some (some a)
  | collection =>
    p' = .nested ∧ ∃ kind, CollectionKind.of? g ty = some (some kind) ∧ kind.Holds g ty a
  | dataType => p' = .nested ∧ ∃ as, g.arguments? ty = some as ∧ a ∈ as
  | _ => False

end Rule

/-- A plan notes exactly `N`, and goes on to exactly the types and positions `D`, unless it
fails. -/
def Plan.Does (N : Note → Prop) (D : Position → TypeId → Prop) (p : Position) : Plan → Prop
  | fail _ => True
  | write notes parts _ =>
    (∀ n, n ∈ notes ↔ N n) ∧
      ∀ p' a, (∃ part ∈ parts, p' = part.position p ∧ a = part.type) ↔ D p' a

section Does

variable {g : TypeGraph} {w : WellKnown} {p : Position} {ty : TypeId} {plan : Plan}
  {N : Note → Prop} {D : Position → TypeId → Prop}

/-- A plan whose parts all stand inside. -/
theorem Plan.does_nested (as : List TypeId) {s : Surround} {notes : List Note}
    (hN : ∀ n, n ∈ notes ↔ N n) (hD : ∀ p' a, D p' a ↔ p' = .nested ∧ a ∈ as) :
    (Plan.write notes (as.map ({ type := · })) s).Does N D p := by
  refine ⟨hN, fun p' a => ?_⟩
  simp [hD, Part.position, and_comm]

theorem Plan.does_text {s : String} {notes : List Note} (hN : ∀ n, n ∈ notes ↔ N n)
    (hD : ∀ p' a, ¬ D p' a) : (Plan.text s notes).Does N D p :=
  Plan.does_nested [] hN (by simp [hD])

theorem Plan.does_inside {a : TypeId} {s : Surround} {notes : List Note}
    (hN : ∀ n, n ∈ notes ↔ N n) (hD : ∀ p' b, D p' b ↔ p' = .nested ∧ b = a) :
    (Plan.inside a s notes).Does N D p :=
  Plan.does_nested [a] hN (by simp [hD])

theorem Plan.does_refusal? (h : Plan.refusal? g ty = some plan) : plan.Does N D p := by
  obtain ⟨_, _, e⟩ := Option.bind_eq_some_iff.mp h
  cases e
  trivial

theorem Plan.does_ofArgument? {plan? : TypeId → Option Plan}
    (h : Plan.ofArgument? g ty plan? = some plan)
    (hplan : ∀ a, g.firstArgument? ty = some (some a) → plan? a = some plan → plan.Does N D p) :
    plan.Does N D p := by
  obtain ⟨found, hfound, h⟩ := Option.bind_eq_some_iff.mp h
  cases found with
  | some a => exact hplan a hfound h
  | none =>
    obtain ⟨_, _, e⟩ := Option.bind_eq_some_iff.mp h
    cases e
    trivial

theorem Plan.does_ofTable? {texts : List (String × String)}
    (h : Plan.ofTable? g ty texts = some plan) (hN : ∀ n, ¬ N n) (hD : ∀ p' a, ¬ D p' a) :
    plan.Does N D p := by
  obtain ⟨name, _, h⟩ := Option.bind_eq_some_iff.mp h
  split at h
  · cases h
    exact Plan.does_text (by simp [hN]) hD
  · exact Plan.does_refusal? h

theorem CustomRule.plan?_does {rule : CustomRule} (h : rule.plan? g p ty = some plan) :
    plan.Does ((Rule.custom rule).Notes g w p ty) ((Rule.custom rule).Descends g w p ty) p := by
  obtain ⟨pattern, action, text⟩ := rule
  cases action with
  | text =>
    cases h
    exact Plan.does_text (by simp [Rule.Notes]) (by simp [Rule.Descends])
  | wrap =>
    refine Plan.does_ofArgument? h fun a ha h => ?_
    cases h
    exact Plan.does_inside (by simp [Rule.Notes])
      fun p' b => by simp [Rule.Descends, ha, eq_comm, and_comm]
  | same =>
    refine Plan.does_ofArgument? h fun a ha h => ?_
    cases h
    refine ⟨by simp [Rule.Notes], fun p' b => ?_⟩
    simp only [List.mem_singleton, exists_eq_left, Part.position, Rule.Descends, ha]
    simp [eq_comm, and_comm]
  | position =>
    cases h
    exact Plan.does_text (by simp [Rule.Notes]) (by simp [Rule.Descends])
  | data =>
    obtain ⟨d, hd, h⟩ := Option.bind_eq_some_iff.mp h
    cases h
    exact Plan.does_text (by simp [Rule.Notes, hd]) (by simp [Rule.Descends])
  | subject =>
    cases h
    exact Plan.does_text (by simp [Rule.Notes]) (by simp [Rule.Descends])
  | fail =>
    cases h
    trivial

theorem CollectionKind.plan?_does {kind : CollectionKind} (h : kind.plan? g ty = some plan) :
    plan.Does (fun _ => False) (fun p' a => p' = .nested ∧ kind.Holds g ty a) p := by
  cases kind with
  | array e =>
    cases h
    exact Plan.does_inside (by simp) fun p' a => by simp [Holds]
  | sequence =>
    refine Plan.does_ofArgument? h fun a ha h => ?_
    cases h
    exact Plan.does_inside (by simp) fun p' a => by simp [Holds, ha, eq_comm]
  | dictionary =>
    obtain ⟨as, has, h⟩ := Option.bind_eq_some_iff.mp h
    split at h
    · cases h
      exact Plan.does_nested [_, _] (by simp) fun p' a => by simp [Holds, has]
    · obtain ⟨_, _, e⟩ := Option.bind_eq_some_iff.mp h
      cases e
      trivial
  | nullable =>
    refine Plan.does_ofArgument? h fun a ha h => ?_
    cases h
    exact Plan.does_inside (by simp) fun p' a => by simp [Holds, ha, eq_comm]

/-- A task of a stream is passed over where a hub returns it. -/
private theorem Rule.genericTask_plan?_does (h : genericTask.plan? g w p ty = some plan) :
    plan.Does (genericTask.Notes g w p ty) (genericTask.Descends g w p ty) p := by
  refine Plan.does_ofArgument? h fun inner hinner h => ?_
  have hpromise (hno : ¬ (p = .hubReturn ∧ w.isStream? g inner = some true)) :
      (Plan.inside inner (.angles "Promise")).Does (genericTask.Notes g w p ty)
        (genericTask.Descends g w p ty) p := by
    refine Plan.does_inside (fun n => ?_) fun p' a => ?_
    · simpa [Notes, Streams, hinner] using fun hp hs => absurd ⟨hp, hs⟩ hno
    · simp [Descends, hinner, hno]
  split at h
  · rename_i hp
    obtain ⟨b, hb, h⟩ := Option.bind_eq_some_iff.mp h
    cases b with
    | true =>
      refine Plan.does_ofArgument? h fun element helement h => ?_
      cases h
      refine Plan.does_inside (fun n => ?_) fun p' a => ?_
      · simp [Notes, Streams, hinner, hp, hb]
      · simp [Descends, hinner, hp, hb, helement, eq_comm]
    | false =>
      cases h
      exact hpromise (by simp [hb])
  · cases h
    exact hpromise (by simp [*])

/-- What the plan of a rule notes and where it goes on. -/
theorem Rule.plan?_does {rule : Rule} (h : rule.plan? g w p ty = some plan) :
    plan.Does (rule.Notes g w p ty) (rule.Descends g w p ty) p := by
  cases rule with
  | override texts => exact Plan.does_ofTable? h (fun _ => id) (fun _ _ => id)
  | custom rule => exact CustomRule.plan?_does h
  | task =>
    cases h
    exact Plan.does_text (by simp [Notes]) (by simp [Descends])
  | genericTask => exact Rule.genericTask_plan?_does h
  | stream =>
    refine Plan.does_ofArgument? h fun element helement h => ?_
    cases h
    refine Plan.does_inside (by simp [Notes]) fun p' a => ?_
    simp [Descends, helement, eq_comm]
  | primitive => exact Plan.does_ofTable? h (fun _ => id) (fun _ _ => id)
  | collection =>
    obtain ⟨found, hfound, h⟩ := Option.bind_eq_some_iff.mp h
    cases found with
    | some kind =>
      have hdoes := CollectionKind.plan?_does (p := p) h
      simpa [Notes, Descends, hfound] using hdoes
    | none => exact Plan.does_refusal? h
  | dataType =>
    obtain ⟨name, _, h⟩ := Option.bind_eq_some_iff.mp h
    obtain ⟨d, hd, h⟩ := Option.bind_eq_some_iff.mp h
    obtain ⟨as, has, h⟩ := Option.bind_eq_some_iff.mp h
    split at h
    · cases h
      exact Plan.does_text (by simp [Notes, hd]) (by simp [Descends, has])
    · cases h
      exact Plan.does_nested as (by simp [Notes, hd]) (by simp [Descends, has])

end Does

end HubBindings
