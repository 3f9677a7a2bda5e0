import HubBindings.Proofs.Rendering.Plan

/-!
Rules see of a type only the answers to a few questions. `Correspondence` asks that two graphs have
corresponding answers to them; then the same rule is in charge of corresponding types
(`Correspondence.find?`), and it has corresponding plans for them (`Correspondence.plan?`).

A renaming of one graph into another is a correspondence, and so is a graph with itself. The second
says that rules have plans for all issued types, with parts of smaller addresses only.
-/

namespace HubBindings

open Sequencing

variable {g g' : TypeGraph} {w w' : WellKnown}

/-- Types of two graphs with corresponding answers to all questions that rules ask: `T` relates
whole types, and `I ty ty'` the types inside of them. -/
structure Correspondence (g g' : TypeGraph) (w w' : WellKnown) (T : TypeId → TypeId → Prop)
    (I : TypeId → TypeId → TypeId → TypeId → Prop) : Prop where
  name? {ty ty' : TypeId} : T ty ty' → Both Eq (g.name? ty) (g'.name? ty')
  metadataName? {ty ty' : TypeId} : T ty ty' → Both Eq (g.metadataName? ty) (g'.metadataName? ty')
  display? {ty ty' : TypeId} : T ty ty' → Both Eq (g.display? ty) (g'.display? ty')
  definition? {ty ty' : TypeId} : T ty ty' → Both T (g.definition? ty) (g'.definition? ty')
  element? {ty ty' : TypeId} :
    T ty ty' → Both (Option.Rel (I ty ty')) (g.element? ty) (g'.element? ty')
  arguments? {ty ty' : TypeId} :
    T ty ty' → Both (List.Forall₂ (I ty ty')) (g.arguments? ty) (g'.arguments? ty')
  isTask {ty ty' : TypeId} : T ty ty' → w.isTask ty = w'.isTask ty'
  isGenericTask? {ty ty' : TypeId} :
    T ty ty' → Both Eq (w.isGenericTask? g ty) (w'.isGenericTask? g' ty')
  isStream? {ty ty' : TypeId} : T ty ty' → Both Eq (w.isStream? g ty) (w'.isStream? g' ty')
  isMarked? {ty ty' : TypeId} : T ty ty' →
    Both Eq (g.hasAttribute? ty w.dataTypeMarker) (g'.hasAttribute? ty' w'.dataTypeMarker)
  whole {ty ty' a a' : TypeId} : I ty ty' a a' → T a a'
  /-- What is inside of an inner type is inside of the outer one. -/
  trans {ty ty' a a' b b' : TypeId} : I ty ty' a a' → I a a' b b' → I ty ty' b b'

/-- The same kind of collection, with corresponding elements of arrays. -/
inductive CollectionKind.Rel (R : TypeId → TypeId → Prop) : CollectionKind → CollectionKind → Prop
  | array {e e' : TypeId} : R e e' → CollectionKind.Rel R (.array e) (.array e')
  | sequence : CollectionKind.Rel R .sequence .sequence
  | dictionary : CollectionKind.Rel R .dictionary .dictionary
  | nullable : CollectionKind.Rel R .nullable .nullable

/-- The same wrapper, or corresponding data types. -/
inductive Note.Rel (T : TypeId → TypeId → Prop) : Note → Note → Prop
  | wrapper (x : Wrapper) : Note.Rel T (.wrapper x) (.wrapper x)
  | dataType {d d' : TypeId} : T d d' → Note.Rel T (.dataType d) (.dataType d')

/-- Corresponding parts, both inside of the type or both in its place. -/
inductive Part.Rel (R : TypeId → TypeId → Prop) : Part → Part → Prop
  | mk {a a' : TypeId} (inside : Bool) : R a a' → Part.Rel R ⟨a, inside⟩ ⟨a', inside⟩

/-- The same error, or the same text around corresponding parts with corresponding notes. -/
inductive Plan.Rel (T R : TypeId → TypeId → Prop) : Plan → Plan → Prop
  | fail (e : RenderError) : Plan.Rel T R (.fail e) (.fail e)
  | write {ns ns' : List Note} {ps ps' : List Part} (s : Surround) :
      List.Forall₂ (Note.Rel T) ns ns' → List.Forall₂ (Part.Rel R) ps ps' →
        Plan.Rel T R (.write ns ps s) (.write ns' ps' s)

section Rel

variable {T R : TypeId → TypeId → Prop}

theorem CollectionKind.ofName?_rel (name : String) :
    Option.Rel (CollectionKind.Rel R) (CollectionKind.ofName? name)
      (CollectionKind.ofName? name) := by
  unfold CollectionKind.ofName?
  split
  · exact .some .sequence
  · split
    · exact .some .dictionary
    · split
      · exact .some .nullable
      · exact .none

theorem Plan.rel_text (s : String) {ns ns' : List Note} (h : List.Forall₂ (Note.Rel T) ns ns') :
    Plan.Rel T R (.text s ns) (.text s ns') := .write _ h .nil

theorem Plan.rel_inside {a a' : TypeId} (s : Surround) {ns ns' : List Note}
    (h : List.Forall₂ (Note.Rel T) ns ns') (ha : R a a') :
    Plan.Rel T R (.inside a s ns) (.inside a' s ns') := .write s h (.cons (.mk true ha) .nil)

end Rel

namespace Correspondence

variable {T : TypeId → TypeId → Prop} {I : TypeId → TypeId → TypeId → TypeId → Prop}
  (c : Correspondence g g' w w' T I) {ty ty' : TypeId} (h : T ty ty')
include c h

theorem firstArgument? :
    Both (Option.Rel (I ty ty')) (g.firstArgument? ty) (g'.firstArgument? ty') :=
  (c.arguments? h).map fun _ _ has => rel_head?_of_forall₂ has

/-! ## Rules in charge -/

private theorem collectionKind? : Both (Option.Rel (CollectionKind.Rel (I ty ty')))
    (CollectionKind.of? g ty) (CollectionKind.of? g' ty') := by
  refine .bind (c.element? h) fun o o' ho => ?_
  cases ho with
  | some he => exact .some (.some (.array he))
  | none =>
    refine .bind (c.arguments? h) fun as as' has => ?_
    cases has with
    | nil => exact .some .none
    | cons _ _ =>
      refine .bind (c.metadataName? h) fun n n' hn => .some ?_
      subst hn
      exact CollectionKind.ofName?_rel n

theorem claims? (rule : Rule) : Both Eq (rule.claims? g w ty) (rule.claims? g' w' ty') := by
  cases rule with
  | override texts => exact .bind (c.metadataName? h) fun _ _ hn => .some (by rw [hn])
  | custom rule =>
    rw [Rule.claims?, Rule.claims?]
    split
    · exact .some rfl
    · exact .bind (c.metadataName? h) fun _ _ hn => .some (by rw [hn])
  | task => exact .some (c.isTask h)
  | genericTask => exact c.isGenericTask? h
  | stream => exact c.isStream? h
  | primitive => exact .bind (c.metadataName? h) fun _ _ hn => .some (by rw [hn])
  | collection =>
    refine .bind (c.collectionKind? h) fun o o' ho => .some ?_
    cases ho <;> rfl
  | dataType =>
    refine .bind (c.element? h) fun o o' ho => ?_
    cases ho with
    | some _ => exact .some rfl
    | none => exact c.isMarked? h

theorem find? (rules : List Rule) :
    Both Eq (Rule.find? g w rules ty) (Rule.find? g' w' rules ty') := by
  have hsame : List.Forall₂ Eq rules rules := List.forall₂_refl rules
  refine (Both.findM? hsame fun rule rule' e => e ▸ c.claims? h rule).mono fun o o' _ _ ho => ?_
  cases ho with
  | none => rfl
  | some e => rw [e]

/-! ## Plans -/

theorem refusal? {R : TypeId → TypeId → Prop} :
    Both (Plan.Rel T R) (Plan.refusal? g ty) (Plan.refusal? g' ty') := by
  refine .bind (c.display? h) fun n n' hn => .some ?_
  subst hn
  exact .fail _

theorem ofTable? {R : TypeId → TypeId → Prop} (texts : List (String × String)) :
    Both (Plan.Rel T R) (Plan.ofTable? g ty texts) (Plan.ofTable? g' ty' texts) := by
  refine .bind (c.metadataName? h) fun n n' hn => ?_
  subst hn
  cases texts.lookup n with
  | some text => exact .some (Plan.rel_text text .nil)
  | none => exact c.refusal? h

private theorem missing? {R : TypeId → TypeId → Prop} :
    Both (Plan.Rel T R) (do return .fail (.missingTypeArgument (← g.metadataName? ty)))
      (do return .fail (.missingTypeArgument (← g'.metadataName? ty'))) := by
  refine .bind (c.metadataName? h) fun n n' hn => .some ?_
  subst hn
  exact .fail _

theorem ofArgument? {R : TypeId → TypeId → Prop} {plan? plan?' : TypeId → Option Plan}
    (hplan : ∀ a a', I ty ty' a a' → Both (Plan.Rel T R) (plan? a) (plan?' a')) :
    Both (Plan.Rel T R) (Plan.ofArgument? g ty plan?) (Plan.ofArgument? g' ty' plan?') := by
  refine .bind (c.firstArgument? h) fun o o' ho => ?_
  cases ho with
  | some ha => exact hplan _ _ ha
  | none => exact c.missing? h

/-- A plan that puts a text around the first argument. -/
theorem aroundArgument? (s : Surround) (notes : List Note)
    (hnotes : List.Forall₂ (Note.Rel T) notes notes) :
    Both (Plan.Rel T (I ty ty')) (Plan.ofArgument? g ty fun a => some (.inside a s notes))
      (Plan.ofArgument? g' ty' fun a => some (.inside a s notes)) :=
  c.ofArgument? h fun _ _ ha => .some (Plan.rel_inside s hnotes ha)

private theorem customPlan? (rule : CustomRule) (p : Position) :
    Both (Plan.Rel T (I ty ty')) (rule.plan? g p ty) (rule.plan? g' p ty') := by
  unfold CustomRule.plan?
  cases rule.action with
  | text => exact .some (Plan.rel_text _ .nil)
  | wrap => exact c.aroundArgument? h _ [] .nil
  | same => exact c.ofArgument? h fun _ _ ha => .some (.write _ .nil (.cons (.mk false ha) .nil))
  | position => exact .some (Plan.rel_text _ .nil)
  | data =>
    exact .bind (c.definition? h) fun _ _ hd => .some (Plan.rel_text _ (.cons (.dataType hd) .nil))
  | subject => exact .some (Plan.rel_text _ (.cons (.wrapper _) .nil))
  | fail => exact .some (.fail _)

private theorem collectionPlan? {kind kind' : CollectionKind}
    (hkind : CollectionKind.Rel (I ty ty') kind kind') :
    Both (Plan.Rel T (I ty ty')) (kind.plan? g ty) (kind'.plan? g' ty') := by
  cases hkind with
  | array he => exact .some (Plan.rel_inside _ .nil he)
  | sequence => exact c.aroundArgument? h _ [] .nil
  | nullable => exact c.aroundArgument? h _ [] .nil
  | dictionary =>
    refine .bind (c.arguments? h) fun as as' has => ?_
    cases has with
    | nil => exact c.missing? h
    | cons hkey hrest =>
      cases hrest with
      | nil => exact c.missing? h
      | cons hvalue hmore =>
        cases hmore with
        | nil => exact .some (.write _ .nil (.cons (.mk true hkey) (.cons (.mk true hvalue) .nil)))
        | cons _ _ => exact c.missing? h

/-- A rule has corresponding plans for corresponding types. -/
theorem plan? (rule : Rule) (p : Position) :
    Both (Plan.Rel T (I ty ty')) (rule.plan? g w p ty) (rule.plan? g' w' p ty') := by
  cases rule with
  | override texts => exact c.ofTable? h texts
  | custom rule => exact c.customPlan? h rule p
  | task => exact .some (Plan.rel_text _ .nil)
  | genericTask =>
    refine c.ofArgument? h fun inner inner' hinner => .ite (fun _ => ?_) fun _ => ?_
    · refine .bind (c.isStream? (c.whole hinner)) fun b b' hb => ?_
      subst hb
      cases b with
      | true =>
        refine c.ofArgument? (c.whole hinner) fun element element' helement => .some ?_
        exact Plan.rel_inside _ (.cons (.wrapper _) .nil) (c.trans hinner helement)
      | false => exact .some (Plan.rel_inside _ .nil hinner)
    · exact .some (Plan.rel_inside _ .nil hinner)
  | stream => exact c.aroundArgument? h _ _ (.cons (.wrapper _) .nil)
  | primitive => exact c.ofTable? h primitiveTexts
  | collection =>
    refine .bind (c.collectionKind? h) fun o o' ho => ?_
    cases ho with
    | none => exact c.refusal? h
    | some hkind => exact c.collectionPlan? h hkind
  | dataType =>
    refine .bind (c.name? h) fun n n' hn => .bind (c.definition? h) fun d d' hd => ?_
    subst hn
    refine .bind (c.arguments? h) fun as as' has => ?_
    have hnotes : List.Forall₂ (Note.Rel T) [.dataType d] [.dataType d'] :=
      .cons (.dataType hd) .nil
    cases has with
    | nil => exact .some (Plan.rel_text n hnotes)
    | cons ha hrest =>
      refine .some (.write _ hnotes ?_)
      rw [List.forall₂_map_left_iff, List.forall₂_map_right_iff]
      exact (List.Forall₂.cons ha hrest).imp fun _ _ hpart => .mk true hpart

end Correspondence

end HubBindings
