import HubBindings.Proofs.Rendering.Correspondence
import HubBindings.Proofs.Rendering.Trace
import HubBindings.Proofs.TypeGraph.Descent

/-!
Rendering by any rules goes down the type and comes back.

* `Rule.apply_steady`: whatever rule is in charge of a type, it asks only for renderings of smaller
  addresses. It is stated for every relation between renderings that is `Steady`, so that it says
  both that a rule depends on no other renderings and that it has a result if those have one;
* `renderType_descends`: rendering is what the rules make of the renderings of smaller addresses;
* `renderType_ends`: a rendering ends with a text or an error, at the position where it began, and
  nothing that was noted is lost (`RenderM.Ends`).
-/

namespace HubBindings

open Sequencing TypeGraph

variable {g : TypeGraph} {w : WellKnown} {ty : TypeId}

namespace RenderM

variable {α β : Type}

/-! ## Renderings with a result -/

/-- The rendering has a result in every context. -/
def Total (x : RenderM α) : Prop := ∀ c, Answers (x.run c)

namespace Total

theorem pure (a : α) : Total (pure a : RenderM α) := fun _ => .some trivial

theorem throw (e : RenderError) : Total (throw e : RenderM α) := fun _ => .some trivial

theorem get : Total (get : RenderM Context) := fun _ => .some trivial

private theorem lift {o : Option α} (h : Answers o) : Total (liftM o : RenderM α) := by
  obtain ⟨a, rfl, _⟩ := h
  exact .pure a

theorem bind {x : RenderM α} {k : α → RenderM β} (hx : Total x) (hk : ∀ a, Total (k a)) :
    Total (x >>= k) := by
  intro c
  obtain ⟨⟨r, c'⟩, hrun, _⟩ := hx c
  cases r with
  | error e => exact ⟨_, run_bind_iff.mpr (.inl ⟨e, hrun, rfl⟩), trivial⟩
  | ok a =>
    obtain ⟨⟨r, c''⟩, hrun', _⟩ := hk a c'
    exact ⟨_, run_bind_iff.mpr (.inr ⟨a, c', hrun, hrun'⟩), trivial⟩

theorem nested {x : RenderM α} (h : Total x) : Total (nested x) :=
  fun c => (h { c with position := .nested }).map fun _ _ => trivial

theorem noteAll (ns : List Note) : Total (noteAll ns) := fun _ => .some trivial

theorem refuse (hg : Consistent g) (hty : g.Issued ty) : Total (refuse g ty) :=
  .bind (.lift (display?_answers hg hty)) fun _ => .throw _

end Total

/-- The rendering ends with a text or an error, at the position where it began, and nothing that was
noted is lost. -/
def Ends (x : RenderM α) : Prop :=
  ∀ c, ∃ r c', x.run c = some (r, c') ∧ c'.position = c.position ∧
    c.references.wrappers ⊆ c'.references.wrappers ∧
    c.references.dataTypes ⊆ c'.references.dataTypes

theorem Total.ends {x : RenderM α} (h : Total x) {P : Position → Note → Prop}
    (huniform : ∀ p, Uniform (P p) p x) : Ends x := by
  rintro ⟨p, refs⟩
  rcases huniform p with hnone | ⟨r, ns, hrun, _⟩
  · obtain ⟨_, hsome, _⟩ := h ⟨p, refs⟩
    rw [hnone] at hsome
    cases hsome
  · refine ⟨r, _, hrun refs, rfl, fun x hx => ?_, fun d hd => ?_⟩
    · exact (References.holds_noteAll (n := .wrapper x)).mpr (.inl hx)
    · exact (References.holds_noteAll (n := .dataType d)).mpr (.inl hd)

/-! ## Steady relations -/

/-- A relation between renderings that every rendering with a result has to itself, and that is kept
by every way to put renderings together. -/
structure Steady (R : (α : Type) → RenderM α → RenderM α → Prop) : Prop where
  refl {α : Type} {x : RenderM α} : Total x → R α x x
  bind {α β : Type} {x y : RenderM α} {k l : α → RenderM β} :
    R α x y → (∀ a, R β (k a) (l a)) → R β (x >>= k) (y >>= l)
  nested {α : Type} {x y : RenderM α} : R α x y → R α (nested x) (nested y)

private theorem eq_steady : Steady fun _ x y => x = y where
  refl _ := rfl
  bind hxy hkl := by rw [hxy, funext hkl]
  nested h := by rw [h]

private theorem total_steady : Steady fun _ x _ => Total x where
  refl h := h
  bind := .bind
  nested := .nested

variable {R : (α : Type) → RenderM α → RenderM α → Prop}

private theorem rel_lift_bind {P : α → Prop} {o : Option α} {k l : α → RenderM β} (ho : Yields P o)
    (h : ∀ a, P a → R β (k a) (l a)) : R β (liftM o >>= k) (liftM o >>= l) := by
  obtain ⟨a, rfl, ha⟩ := ho
  exact h a ha

theorem Steady.mapM (hR : Steady R) {f k : α → RenderM β} {as : List α}
    (h : ∀ a ∈ as, R β (f a) (k a)) : R _ (as.mapM f) (as.mapM k) := by
  induction as with
  | nil => exact hR.refl (.pure [])
  | cons a as ih =>
    rw [List.mapM_cons, List.mapM_cons]
    refine hR.bind (h a List.mem_cons_self) fun _ => ?_
    exact hR.bind (ih fun b hb => h b (List.mem_cons_of_mem _ hb)) fun _ => hR.refl (.pure _)

end RenderM

open RenderM

/-! ## Rules -/

/-- Every graph corresponds to itself: all questions about issued types have answers, and what is
inside of a type has a smaller address. -/
theorem TypeGraph.Consistent.correspondence (hg : Consistent g) (w : WellKnown) :
    Correspondence g g w w (fun a a' => a = a' ∧ g.Issued a)
      (fun ty _ a a' => a = a' ∧ g.Issued a ∧ a.index < ty.index) where
  name? := by rintro ty _ ⟨rfl, hty⟩; exact .of_eq (name?_answers hg hty) rfl
  metadataName? := by rintro ty _ ⟨rfl, hty⟩; exact .of_eq (metadataName?_answers hg hty) rfl
  display? := by rintro ty _ ⟨rfl, hty⟩; exact .of_eq (display?_answers hg hty) rfl
  definition? := by
    rintro ty _ ⟨rfl, hty⟩
    obtain ⟨d, hd, hissued⟩ := definition?_yields hg hty
    exact ⟨d, d, hd, hd, rfl, hissued⟩
  element? := by
    rintro ty _ ⟨rfl, hty⟩
    obtain ⟨o, ho, hlt⟩ := element?_yields hg hty
    refine ⟨o, o, ho, ho, ?_⟩
    cases o with
    | none => exact .none
    | some e => exact .some ⟨rfl, hty.of_lt (hlt e rfl), hlt e rfl⟩
  arguments? := by
    rintro ty _ ⟨rfl, hty⟩
    obtain ⟨as, has, hlt⟩ := arguments?_yields hg hty
    refine ⟨as, as, has, has, List.forall₂_same.mpr fun a ha => ?_⟩
    exact ⟨rfl, hty.of_lt (hlt a ha), hlt a ha⟩
  isTask := by rintro ty _ ⟨rfl, _⟩; rfl
  isGenericTask? := by
    rintro ty _ ⟨rfl, hty⟩
    exact .of_eq (isConstructedFrom?_answers hg hty _) rfl
  isStream? := by rintro ty _ ⟨rfl, hty⟩; exact .of_eq (isStream?_answers hg hty w) rfl
  isMarked? := by rintro ty _ ⟨rfl, hty⟩; exact .of_eq (hasAttribute?_answers hg hty _) rfl
  whole h := ⟨h.1, h.2.1⟩
  trans := by
    rintro ty _ a _ b _ ⟨rfl, _, ha⟩ ⟨rfl, hb, hlt⟩
    exact ⟨rfl, hb, Nat.lt_trans hlt ha⟩

section Issued

variable (hg : Consistent g) (hty : g.Issued ty)
include hg hty

theorem Rule.find?_answers (rules : List Rule) : Answers (Rule.find? g w rules ty) := by
  obtain ⟨found, _, hfound, _⟩ := (hg.correspondence w).find? ⟨rfl, hty⟩ rules
  exact ⟨found, hfound, trivial⟩

theorem Rule.plan?_yields (rule : Rule) (p : Position) :
    Yields (fun plan => ∀ part ∈ plan.parts, part.type.index < ty.index)
      (rule.plan? g w p ty) := by
  obtain ⟨plan, _, hplan, _, hrel⟩ := (hg.correspondence w).plan? ⟨rfl, hty⟩ rule p
  refine ⟨plan, hplan, fun part hpart => ?_⟩
  cases hrel with
  | fail e => cases hpart
  | write s _ hparts =>
    obtain ⟨_, _, ⟨_, hlt⟩⟩ := exists_of_mem_left hparts hpart
    exact hlt.2.2

/-- A rule asks only for renderings of smaller addresses. -/
theorem Rule.apply_steady {R : (α : Type) → RenderM α → RenderM α → Prop} (hR : Steady R)
    {first second : TypeId → RenderM String}
    (h : ∀ a, a.index < ty.index → R _ (first a) (second a)) (rule : Rule) :
    R _ (rule.apply g w first ty) (rule.apply g w second ty) := by
  rw [Rule.apply_eq, Rule.apply_eq]
  refine hR.bind (hR.refl .get) fun c => rel_lift_bind (rule.plan?_yields hg hty _) ?_
  intro plan hplan
  cases plan with
  | fail e => exact hR.refl (.throw e)
  | write notes parts text =>
    refine hR.bind (hR.refl (.noteAll notes)) fun _ =>
      hR.bind (hR.mapM ?_) fun _ => hR.refl (.pure _)
    rintro ⟨a, inside⟩ hpart
    cases inside with
    | true => exact hR.nested (h a (hplan _ hpart))
    | false => exact h a (hplan _ hpart)

end Issued

/-! ## Rendering -/

/-- One level of a rendering. -/
def renderStep (g : TypeGraph) (w : WellKnown) (rules : List Rule)
    (call : TypeId → RenderM String) (ty : TypeId) : RenderM String := do
  match ← liftM (Rule.find? g w rules ty) with
  | some rule => rule.apply g w call ty
  | none => refuse g ty

section Render

variable (hg : Consistent g) (rules : List Rule)
include hg

private theorem renderStep_steady {R : (α : Type) → RenderM α → RenderM α → Prop} (hR : Steady R)
    (hty : g.Issued ty) (first second : TypeId → RenderM String)
    (h : ∀ a, a.index < ty.index → R _ (first a) (second a)) :
    R _ (renderStep g w rules first ty) (renderStep g w rules second ty) := by
  refine rel_lift_bind (Rule.find?_answers hg hty rules) fun found _ => ?_
  cases found with
  | some rule => exact rule.apply_steady hg hty hR h
  | none => exact hR.refl (.refuse hg hty)

theorem renderType_descends :
    Descends g (liftM none) (renderStep g w rules) (renderType g w rules) :=
  .of_within (renderWithin g w rules) (fun _ _ => rfl) fun _ hty _ =>
    renderStep_steady hg rules eq_steady hty _ _ fun _ ha => cutOff_of_lt ha

private theorem renderType_total (hty : g.Issued ty) : Total (renderType g w rules ty) := by
  -- induction on the address, by the equation of the recursion
  obtain ⟨n⟩ := ty
  induction n using Nat.strongRecOn with
  | ind n ih =>
    have hsmaller : ∀ a : TypeId, a.index < n → Total (renderType g w rules a) :=
      fun a ha => ih a.index ha (hty.of_lt ha)
    rw [(renderType_descends hg rules).solves _ hty]
    exact renderStep_steady hg rules total_steady hty _ (renderType g w rules) hsmaller

theorem renderType_ends (hty : g.Issued ty) : Ends (renderType g w rules ty) :=
  (renderType_total hg rules hty).ends fun p => renderWithin_uniform rules g.typeCount ty p

end Render

/-- Names, texts and renderings of types are found by going down to smaller addresses, by whatever
rules; a rendering always ends, where it began, and keeps what was noted. -/
theorem rendering_descends {g : TypeGraph} (hg : g.Reachable) (w : WellKnown) (rules : List Rule) :
    (Descends g none (arrayStep g (g.headText? (·.name)) id) g.name? ∧
      Descends g none (arrayStep g (g.headText? (·.nameSpace)) id) g.nameSpace? ∧
      Descends g none
        (arrayStep g (fun ty => g.definition? ty >>= g.headText? (·.metadataName)) (· ++ "[]"))
        g.metadataName? ∧
      Descends g none (displayStep g) g.display? ∧
      Descends g (liftM none) (renderStep g w rules) (renderType g w rules)) ∧
    ∀ ty, g.Issued ty →
      Answers (g.name? ty) ∧ Answers (g.nameSpace? ty) ∧ Answers (g.metadataName? ty) ∧
        Answers (g.display? ty) ∧ Ends (renderType g w rules ty) := by
  have hg := hg.consistent
  refine ⟨⟨name?_descends hg, nameSpace?_descends hg, metadataName?_descends hg,
    display?_descends hg, renderType_descends hg rules⟩, fun ty hty => ?_⟩
  exact ⟨name?_answers hg hty, nameSpace?_answers hg hty, metadataName?_answers hg hty,
    display?_answers hg hty, renderType_ends hg rules hty⟩

/-- A type with a marker, one without, and two generic types. -/
def letters : TypeGraph :=
  declareAll
    [{ head := { kind := .classType, nameSpace := "App", name := "Marker" } },
     { head := { kind := .classType, nameSpace := "App", name := "Letter" }, attributes := [⟨0⟩] },
     { head := { kind := .classType, nameSpace := "App", name := "Secret" } },
     { head := { kind := .classType, nameSpace := "App", name := "Parcel", arity := 1 } },
     { head := { kind := .classType, nameSpace := "System.Collections.Generic"
                 name := "Dictionary", arity := 2 } }] {}

/-- The same with a parcel that holds a dictionary, whose keys are arrays. -/
def post : TypeGraph :=
  ((letters.withArray ⟨1⟩).withConstruction ⟨4⟩ [⟨5⟩, ⟨2⟩]).withConstruction ⟨3⟩ [⟨6⟩]

def postMarkers : WellKnown :=
  { task := none, genericTask := none, asyncEnumerable := none, channelReader := none
    cancellationToken := none, hubMarker := ⟨0⟩, receiverMarker := ⟨0⟩, dataTypeMarker := ⟨0⟩ }

/-- A custom rule and fixed texts among the other rules. -/
def postRules : List Rule :=
  [.dataType, .custom { pattern := "App.Parcel`1", action := .same, text := "Parcel" },
    .collection, .override [("App.Marker", "marker")], .stream]

private theorem post_reachable : post.Reachable := by
  have hletters : letters.Reachable := .declareAll .empty (by decide +kernel)
  have harray : (arrayOf ⟨1⟩).run letters = some (.ok ⟨5⟩, letters.withArray ⟨1⟩) := rfl
  have hkeys : (letters.withArray ⟨1⟩).Reachable :=
    .step hletters (.arrayOf (by decide +kernel) harray)
  exact (hkeys.withConstruction ⟨4⟩ [⟨5⟩, ⟨2⟩] (by decide +kernel) (by decide +kernel)
    rfl).withConstruction ⟨3⟩ [⟨6⟩] (by decide +kernel) (by decide +kernel) rfl

/-- The values of the dictionary cannot be rendered, but its keys were noted before. -/
theorem rendering_post_descends :
    post.Reachable ∧ post.Issued ⟨7⟩ ∧
      post.display? ⟨7⟩ =
        some "App.Parcel<System.Collections.Generic.Dictionary<App.Letter[], App.Secret>>" ∧
      (renderType post postMarkers postRules ⟨7⟩).run
          { position := .argument, references := { wrappers := [.subject] } } =
        some (.error (.unsupported "App.Secret"),
          { position := .argument
            references := { wrappers := [.subject], dataTypes := [⟨1⟩] } }) ∧
      Descends post none (displayStep post) post.display? ∧
      Descends post (liftM none) (renderStep post postMarkers postRules)
        (renderType post postMarkers postRules) ∧
      Ends (renderType post postMarkers postRules ⟨7⟩) := by
  have hissued : post.Issued ⟨7⟩ := by decide +kernel
  obtain ⟨⟨_, _, _, hdisplay, hrender⟩, hall⟩ :=
    rendering_descends post_reachable postMarkers postRules
  obtain ⟨_, _, _, _, hends⟩ := hall ⟨7⟩ hissued
  exact ⟨post_reachable, hissued, by decide +kernel, by decide +kernel, hdisplay, hrender, hends⟩

end HubBindings
