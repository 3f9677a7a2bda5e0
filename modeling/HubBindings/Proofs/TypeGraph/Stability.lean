import HubBindings.Proofs.TypeGraph.Kept
import HubBindings.Proofs.TypeGraph.Representation
import HubBindings.Proofs.TypeGraph.Resolution

/-!
Addresses are stable: a call only extends the graph.

* `Edit` is a call with its arguments, and `Edit.run` what it does, whether it succeeds or fails. A
  call with issued addresses always has an outcome (`Edit.run_answers`);
* what a call does to the members of a type that was there is to append to them, and only to those
  of the type it names (`Edit.Effect.symbol?`);
* what a call that fails leaves behind are constructed types and arrays
  (`Edit.Effect.internings_of_error`).
-/

namespace HubBindings.TypeGraph

open Sequencing

/-- A call that extends a graph. -/
inductive Edit where
  | declare (d : Declaration)
  | addAttribute (ty marker : TypeId)
  | addBase (ty base : TypeId)
  | addMethod (ty : TypeId) (m : Method)
  | construct (type : TypeId) (arguments : List TypeId)
  | constructNamed (name : String) (arguments : List TypeId)
  | arrayOf (element : TypeId)
  | resolve (ref : TypeRef)

/-- Whether a computation succeeds, and the graph after it. -/
def outcome {α : Type} (x : GraphM α) (g : TypeGraph) :
    Option (Except GraphError Unit × TypeGraph) :=
  (x.run g).map fun p => (p.1.map fun _ => (), p.2)

namespace Edit

/-- The graph has issued every address in a call. -/
def Issued (g : TypeGraph) : Edit → Prop
  | declare d => g.IssuedDeclaration d
  | addAttribute ty marker => g.Issued ty ∧ g.Issued marker
  | addBase ty base => g.Issued ty ∧ g.Issued base
  | addMethod ty m => g.Issued ty ∧ g.IssuedMethod m
  | construct type arguments => g.Issued type ∧ ∀ a ∈ arguments, g.Issued a
  | constructNamed _ arguments => ∀ a ∈ arguments, g.Issued a
  | arrayOf element => g.Issued element
  | resolve _ => True

/-- Whether a call succeeds, and the graph after it. -/
def run (g : TypeGraph) : Edit → Option (Except GraphError Unit × TypeGraph)
  | declare d => some (.ok (), (g.declare d).2)
  | addAttribute ty marker => (g.addAttribute? ty marker).map fun g' => (.ok (), g')
  | addBase ty base => (g.addBase? ty base).map fun g' => (.ok (), g')
  | addMethod ty m => (g.addMethod? ty m).map fun added => (.ok (), added.2)
  | construct type arguments => outcome (TypeGraph.construct type arguments) g
  | constructNamed name arguments => outcome (TypeGraph.constructNamed name arguments) g
  | arrayOf element => outcome (TypeGraph.arrayOf element) g
  | resolve ref => outcome ref.resolve g

/-- The attributes that a call attaches to a type. -/
def attributesFor (ty : TypeId) : Edit → List TypeId
  | addAttribute target marker => if target = ty then [marker] else []
  | _ => []

/-- The bases that a call attaches to a type. -/
def basesFor (ty : TypeId) : Edit → List TypeId
  | addBase target base => if target = ty then [base] else []
  | _ => []

/-- The methods that a call attaches to a type of a graph. -/
def methodsFor (g : TypeGraph) (ty : TypeId) : Edit → List MethodId
  | addMethod target _ => if target = ty then [g.nextMethod] else []
  | _ => []

end Edit

variable {g g' : TypeGraph} {e : Edit} {r : Except GraphError Unit}

/-! ## Every call has an outcome -/

private theorem outcome_eq_some {α : Type} {x : GraphM α} (h : outcome x g = some (r, g')) :
    ∃ r', x.run g = some (r', g') ∧ r = r'.map fun _ => () := by
  obtain ⟨⟨r', g₁⟩, hrun, heq⟩ := Option.map_eq_some_iff.mp h
  cases heq
  exact ⟨r', hrun, rfl⟩

private theorem outcome_answers {α : Type} {x : GraphM α} (h : Answers (x.run g)) :
    Answers (outcome x g) := h.map fun _ _ => trivial

private theorem constructNamed_answers (hg : Consistent g) (name : String) (as : List TypeId) :
    Answers ((constructNamed name as).run g) := by
  cases hl : g.lookup name with
  | none =>
    refine ⟨(.error (.unresolvedType name), g), run_bind_iff.mpr (.inl ⟨_, ?_, rfl⟩), trivial⟩
    rw [require, run_get_bind, hl]
    rfl
  | some d =>
    obtain ⟨⟨r, g'⟩, hrun, _⟩ := construct_answers hg (hg.issued_of_lookup hl) as
    exact ⟨(r, g'), run_bind_iff.mpr (.inr ⟨d, g, require_run hl, hrun⟩), trivial⟩

private theorem resolve_answers (hg : g.Reachable) (ref : TypeRef) :
    Answers (ref.resolve.run g) := by
  obtain ⟨heads, hheads⟩ := hg.declares
  obtain ⟨r, g', hrun, _⟩ := resolve_meets ref hheads
  exact ⟨_, hrun, trivial⟩

namespace Edit

theorem run_answers (hg : g.Reachable) (he : e.Issued g) : Answers (e.run g) := by
  cases e with
  | declare d => exact .some trivial
  | addAttribute ty marker =>
    obtain ⟨g', h⟩ := exists_modify? he.1 _
    exact ⟨_, Option.map_eq_some_iff.mpr ⟨g', h, rfl⟩, trivial⟩
  | addBase ty base =>
    obtain ⟨g', h⟩ := exists_modify? he.1 _
    exact ⟨_, Option.map_eq_some_iff.mpr ⟨g', h, rfl⟩, trivial⟩
  | addMethod ty m =>
    obtain ⟨added, h⟩ := exists_addMethod? he.1 m
    exact ⟨_, Option.map_eq_some_iff.mpr ⟨added, h, rfl⟩, trivial⟩
  | construct type as => exact outcome_answers (construct_answers hg.consistent he.1 as)
  | constructNamed name as => exact outcome_answers (constructNamed_answers hg.consistent name as)
  | arrayOf element => exact outcome_answers (arrayOf_answers he)
  | resolve ref => exact outcome_answers (resolve_answers hg ref)

/-! ## What a call adds -/

/-- What a call does to a graph: it declares a type, attaches one member, or only makes constructed
types and arrays and attaches nothing. -/
inductive Effect (g : TypeGraph) : Edit → Except GraphError Unit → TypeGraph → Prop
  | declared {d : Declaration} :
      g.IssuedDeclaration d → Effect g (declare d) (.ok ()) (g.declare d).2
  | addedAttribute {ty marker : TypeId} {g' : TypeGraph} :
      g.Issued ty → g.Issued marker → g.addAttribute? ty marker = some g' →
        Effect g (addAttribute ty marker) (.ok ()) g'
  | addedBase {ty base : TypeId} {g' : TypeGraph} :
      g.Issued ty → g.Issued base → g.addBase? ty base = some g' →
        Effect g (addBase ty base) (.ok ()) g'
  | addedMethod {ty : TypeId} {m : Method} {id : MethodId} {g' : TypeGraph} :
      g.Issued ty → g.IssuedMethod m → g.addMethod? ty m = some (id, g') →
        Effect g (addMethod ty m) (.ok ()) g'
  | interned {e : Edit} {r : Except GraphError Unit} {g' : TypeGraph} :
      Internings g g' →
        (∀ ty, e.attributesFor ty = [] ∧ e.basesFor ty = [] ∧ e.methodsFor g ty = []) →
        Effect g e r g'

private theorem run_effect (hg : Coherent g) (he : e.Issued g) (h : e.run g = some (r, g')) :
    Effect g e r g' := by
  cases e with
  | declare d =>
    cases h
    exact .declared he
  | addAttribute ty marker =>
    obtain ⟨_, hadd, heq⟩ := Option.map_eq_some_iff.mp h
    cases heq
    exact .addedAttribute he.1 he.2 hadd
  | addBase ty base =>
    obtain ⟨_, hadd, heq⟩ := Option.map_eq_some_iff.mp h
    cases heq
    exact .addedBase he.1 he.2 hadd
  | addMethod ty m =>
    obtain ⟨_, hadd, heq⟩ := Option.map_eq_some_iff.mp h
    cases heq
    exact .addedMethod he.1 he.2 hadd
  | construct type as =>
    obtain ⟨_, hrun, _⟩ := outcome_eq_some h
    exact .interned (construct_internings hg he.1 he.2 hrun).1 fun _ => ⟨rfl, rfl, rfl⟩
  | constructNamed name as =>
    obtain ⟨_, hrun, _⟩ := outcome_eq_some h
    exact .interned (constructNamed_internings hg he hrun) fun _ => ⟨rfl, rfl, rfl⟩
  | arrayOf element =>
    obtain ⟨_, hrun, _⟩ := outcome_eq_some h
    exact .interned (arrayOf_internings hg he hrun).1 fun _ => ⟨rfl, rfl, rfl⟩
  | resolve ref =>
    obtain ⟨_, hrun, _⟩ := outcome_eq_some h
    exact .interned (resolve_internings ref hg hrun).1 fun _ => ⟨rfl, rfl, rfl⟩

namespace Effect

variable (h : Effect g e r g')
include h

theorem changes : Changes g g' := by
  cases h with
  | declared hd => exact .single (.declare _ hd)
  | addedAttribute hty hmarker hadd => exact .single (.addAttribute hty hmarker hadd)
  | addedBase hty hbase hadd => exact .single (.addBase hty hbase hadd)
  | addedMethod hty hm hadd => exact .single (.addMethod hty hm hadd)
  | interned hi _ => exact Internings.changes hi

/-- A call that fails has only made constructed types and arrays. -/
theorem internings_of_error {err : GraphError} (hr : r = .error err) : Internings g g' := by
  cases h with
  | declared _ => cases hr
  | addedAttribute _ _ _ => cases hr
  | addedBase _ _ _ => cases hr
  | addedMethod _ _ _ => cases hr
  | interned hi _ => exact hi

/-- A call appends to the members of a type that was there, or leaves them alone. -/
theorem symbol? {ty : TypeId} {s : TypeSymbol} (hs : g.symbol? ty = some s) :
    g'.symbol? ty = some
      { s with
        attributes := s.attributes ++ e.attributesFor ty
        bases := s.bases ++ e.basesFor ty
        methods := s.methods ++ e.methodsFor g ty } := by
  cases h with
  | declared _ =>
    rw [symbol?_push_old rfl hs]
    simp [attributesFor, basesFor, methodsFor]
  | @addedAttribute target marker _ _ _ hadd =>
    rw [(modify?_eq_some hadd).2, hs]
    by_cases hty : ty = target
    · simp [attributesFor, basesFor, methodsFor, hty]
    · simp [attributesFor, basesFor, methodsFor, hty, Ne.symm hty]
  | @addedBase target base _ _ _ hadd =>
    rw [(modify?_eq_some hadd).2, hs]
    by_cases hty : ty = target
    · simp [attributesFor, basesFor, methodsFor, hty]
    · simp [attributesFor, basesFor, methodsFor, hty, Ne.symm hty]
  | @addedMethod target m id _ _ _ hadd =>
    obtain ⟨g₁, hmodify, heq⟩ := Option.map_eq_some_iff.mp hadd
    cases heq
    change g₁.symbol? ty = _
    rw [(modify?_eq_some hmodify).2, hs]
    by_cases hty : ty = target
    · simp [attributesFor, basesFor, methodsFor, hty]
    · simp [attributesFor, basesFor, methodsFor, hty, Ne.symm hty]
  | interned hi hnone =>
    obtain ⟨hattributes, hbases, hmethods⟩ := hnone ty
    rw [Internings.symbol?_kept hi hs, hattributes, hbases, hmethods]
    simp

end Effect

end Edit

/-! ## What stays -/

/-- A type has the same answers in two graphs to the questions about what it is. -/
structure SameType (g g' : TypeGraph) (ty : TypeId) : Prop where
  kind : Both Eq (g.kind? ty) (g'.kind? ty)
  name : Both Eq (g.name? ty) (g'.name? ty)
  nameSpace : Both Eq (g.nameSpace? ty) (g'.nameSpace? ty)
  metadataName : Both Eq (g.metadataName? ty) (g'.metadataName? ty)
  display : Both Eq (g.display? ty) (g'.display? ty)
  arity : Both Eq (g.arity? ty) (g'.arity? ty)
  definition : Both Eq (g.definition? ty) (g'.definition? ty)
  arguments : Both Eq (g.arguments? ty) (g'.arguments? ty)
  element : Both Eq (g.element? ty) (g'.element? ty)

/-- Types stay what they are while the graph changes. -/
theorem Changes.sameType (h : Changes g g') (hg : Consistent g) {ty : TypeId} (hty : g.Issued ty) :
    SameType g g' ty := by
  have forms : ∀ {ty f}, g.form? ty = some f → g'.form? ty = some f := h.form?_kept
  have hty' := h.issued hty
  have hhead := head?_same hg forms hty
  exact
    { kind := hhead.map fun _ _ e => by rw [e]
      name := .of_eq (name?_answers hg hty) (name?_kept hg forms hty hty')
      nameSpace := .of_eq (nameSpace?_answers hg hty) (nameSpace?_kept hg forms hty hty')
      metadataName := .of_eq (metadataName?_answers hg hty) (metadataName?_kept hg forms hty hty')
      display := .of_eq (display?_answers hg hty) (display?_kept hg forms hty hty')
      arity := hhead.map fun _ _ e => by rw [e]
      definition := .of_eq (definition?_yields hg hty).answers (definition?_kept forms hty)
      arguments := .of_eq (arguments?_yields hg hty).answers (arguments?_kept forms hty)
      element := .of_eq (element?_yields hg hty).answers (element?_kept forms hty) }

theorem Changes.isOrdinary_kept (h : Changes g g') {m : MethodId} (hm : g.HasMethod m) :
    g'.isOrdinary m = g.isOrdinary m := by
  obtain ⟨x, hx⟩ := hasMethod_iff.mp hm
  rw [isOrdinary, isOrdinary, hx, h.method?_kept hx]

/-- The members of a type with definition `d` after a call are those before it and what the call
attaches to `d`. -/
structure Appends (e : Edit) (g g' : TypeGraph) (ty d : TypeId) : Prop where
  attributes : Both (fun as as' => as' = as ++ e.attributesFor d) (g.attributes? ty)
    (g'.attributes? ty)
  bases : Both (fun bs bs' => bs' = bs ++ e.basesFor d) (g.bases? ty) (g'.bases? ty)
  methods : Both (fun ms ms' => ms' = ms ++ (e.methodsFor g d).filter g'.isOrdinary) (g.methods? ty)
    (g'.methods? ty)

theorem Edit.Effect.appends (h : Edit.Effect g e r g') (hg : Consistent g) {ty d : TypeId}
    (hty : g.Issued ty) (hd : g.definition? ty = some d) : Appends e g g' ty d := by
  obtain ⟨s, hs⟩ := issued_iff_symbol?.mp (hg.definition?_plain hd).1
  have hmember : g.memberSymbol? ty = some s := by
    rw [memberSymbol?, hd]
    exact hs
  have hmember' : g'.memberSymbol? ty = g'.symbol? d := by
    rw [memberSymbol?, definition?_kept h.changes.form?_kept hty, hd]
    rfl
  rw [h.symbol? hs] at hmember'
  have hordinary : s.methods.filter g'.isOrdinary = s.methods.filter g.isOrdinary :=
    List.filter_congr fun m hm => h.changes.isOrdinary_kept (hg.methods hs m hm)
  refine ⟨?_, ?_, ?_⟩
  · rw [attributes?, attributes?, hmember, hmember']
    exact .some rfl
  · rw [bases?, bases?, hmember, hmember']
    exact .some rfl
  · rw [methods?, methods?, hmember, hmember']
    refine .some ?_
    show (s.methods ++ e.methodsFor g d).filter g'.isOrdinary =
      s.methods.filter g.isOrdinary ++ (e.methodsFor g d).filter g'.isOrdinary
    rw [List.filter_append, hordinary]

/-- What a call with outcome `r` leaves as it was, and what it does to the members of types. -/
structure Stable (e : Edit) (r : Except GraphError Unit) (g g' : TypeGraph) : Prop where
  types : ∀ ty, g.Issued ty → SameType g g' ty
  methods : ∀ m, g.HasMethod m → Both Eq (g.method? m) (g'.method? m)
  lookup : ∀ name ty, g.lookup name = some ty → g'.lookup name = some ty
  /-- A call that fails declares nothing, and no name leads elsewhere after it. -/
  failed : ∀ err, r = .error err →
    (∀ scope, g'.declaredIn scope = g.declaredIn scope) ∧ ∀ name, g'.lookup name = g.lookup name
  /-- Only a call that names the definition of a type adds to its members, at their end. -/
  members : ∀ ty d, g.Issued ty → g.definition? ty = some d → Appends e g g' ty d

/-- A call on issued addresses has an outcome, and whether it succeeds or fails, addresses stay what
they are: types, methods and names as they were, members at most appended. -/
theorem edit_stable (hg : g.Reachable) (he : e.Issued g) :
    ∃ r g', e.run g = some (r, g') ∧ Stable e r g g' := by
  obtain ⟨⟨r, g'⟩, hrun, _⟩ := Edit.run_answers hg he
  have heffect := Edit.run_effect hg.coherent he hrun
  have hchanges := heffect.changes
  refine ⟨r, g', hrun, ?_⟩
  exact
    { types := fun ty hty => hchanges.sameType hg.consistent hty
      methods := fun m hm => by
        obtain ⟨x, hx⟩ := hasMethod_iff.mp hm
        exact ⟨x, x, hx, hchanges.method?_kept hx, rfl⟩
      lookup := fun name ty hl => hchanges.lookup_kept hl
      failed := fun err hr => by
        have hrenaming := Internings.renaming (heffect.internings_of_error hr) hg.consistent
        refine ⟨fun scope => ?_, fun name => ?_⟩
        · rw [hrenaming.declared, List.map_id]
        · rw [hrenaming.lookup, Option.map_id, id]
      members := fun ty d hty hd => heffect.appends hg.consistent hty hd }

/-- A reference whose first argument is constructed before the second one turns out to lead
nowhere. -/
def strayReference : TypeRef :=
  .generic "App.Box`1" [.generic "App.Box`1" [.named "App.IShop"], .named "App.Missing"]

/-- Resolving the reference fails after a type was constructed, and everything stays as it was. -/
theorem strayReference_stable :
    counter.Reachable ∧ ∃ r g', (Edit.resolve strayReference).run counter = some (r, g') ∧
      r = .error (.unresolvedType "App.Missing") ∧ g'.typeCount = counter.typeCount + 1 ∧
      Stable (.resolve strayReference) r counter g' := by
  have hcounter : counter.Reachable := .declareAll .empty (by decide +kernel)
  obtain ⟨r, g', hrun, hstable⟩ := edit_stable (e := .resolve strayReference) hcounter trivial
  refine ⟨hcounter, r, g', hrun, ?_, ?_, hstable⟩
  · cases hrun
    rfl
  · cases hrun
    rfl

end HubBindings.TypeGraph
