import HubBindings.Proofs.Client.Imports
import HubBindings.Proofs.Rendering.Expression

/-!
References of renderings against the expressions that they print.

* `names_of_data`: a data type is printed under the name of its definition, unless its definition is
  an array: such a type has no name of its own, while the array has that of its innermost element;
* `references_exact`: the wrappers and data types of a rendering are those of the nodes of its
  expression, and a method refers to what the expressions of its types refer to. The type in
  `crateTypes_misnamed` is the exception to the law of names.
-/

namespace HubBindings

open Sequencing TypeGraph WellKnown TypeExpr

variable {g : TypeGraph} {w : WellKnown} {ty : TypeId} {texts : List (String × String)}
  {p : Position}

/-! ## Names of data types -/

section Names

variable {d : TypeId} {as : List TypeId}

theorem TypeGraph.name?_of_constructed {h : TypeHead} (hf : g.form? ty = some (.constructed d as))
    (hd : g.form? d = some (.declared h)) : g.name? ty = some h.name := by
  obtain ⟨s, hs, hform⟩ := symbol?_of_form? hf
  obtain ⟨origin, ho, hdeclared⟩ := symbol?_of_form? hd
  simp [name?, peel?_of_not_array hf rfl, head?, hs, hform, ho, hdeclared, TypeHead.instantiated]

theorem TypeGraph.name?_of_constructed_array {e : TypeId}
    (hf : g.form? ty = some (.constructed d as)) (hd : g.form? d = some (.array e)) :
    g.name? ty = some "" := by
  obtain ⟨s, hs, hform⟩ := symbol?_of_form? hf
  obtain ⟨origin, ho, harray⟩ := symbol?_of_form? hd
  simp [name?, peel?_of_not_array hf rfl, head?, hs, hform, ho, harray, TypeHead.ofArray]

/-- The name of a data type is the one that its definition is imported under. Only a type that is
constructed from an array is an exception, which has no name. -/
theorem names_of_data (hg : Consistent g) {n : String} (h : DataType g w ty d n) :
    ∃ i, Binding.import? g d = some i ∧ (g.element? d = some none → n = i.name) ∧
      ∀ e, g.element? d = some (some e) → n = "" := by
  have hdefinition := h.definition
  rw [definition?_eq_form?] at hdefinition
  obtain ⟨f, hf, hfd⟩ := Option.map_eq_some_iff.mp hdefinition
  have hissued : g.Issued d := by
    obtain ⟨d', hd', hissued⟩ := definition?_yields hg h.issued
    cases hd'.symm.trans h.definition
    exact hissued
  obtain ⟨nameSpace, hns, _⟩ := nameSpace?_answers hg hissued
  obtain ⟨name, hname, _⟩ := name?_answers hg hissued
  refine ⟨{ nameSpace, name }, by simp [Binding.import?, hns, hname], ?_⟩
  cases f with
  | declared head =>
    cases hfd
    cases h.name.symm.trans hname
    refine ⟨fun _ => rfl, fun e he => ?_⟩
    cases he.symm.trans h.element
  | array e => cases (element?_of_form? hf).symm.trans h.element
  | constructed d' as =>
    cases hfd
    obtain ⟨f, hd⟩ := issued_iff_form?.mp hissued
    cases f with
    | declared head =>
      cases h.name.symm.trans (name?_of_constructed hf hd)
      cases hname.symm.trans (name?_of_declared hd)
      refine ⟨fun _ => rfl, fun e he => ?_⟩
      cases he.symm.trans (element?_of_form? hd)
    | array e =>
      cases h.name.symm.trans (name?_of_constructed_array hf hd)
      refine ⟨fun he => ?_, fun _ _ => rfl⟩
      cases he.symm.trans (element?_of_form? hd)
    | constructed d' as' => exact absurd hd (hg.plain hf d' as')

end Names

/-! ## Exact references -/

/-- A rendering and the expression that it prints. What it refers to are the wrappers and the
definitions of the data types among the nodes, and nothing else. -/
structure RefersAs (g : TypeGraph) (texts : List (String × String)) (e : TypeExpr) (r : Rendered) :
    Prop where
  text : r.text = e.print
  wrappers : ∀ x, x ∈ r.references.wrappers ↔ ∃ element, .wrapped x element ∈ e.nodes
  dataTypes : ∀ d, d ∈ r.references.dataTypes ↔ ∃ name arguments, .data d name arguments ∈ e.nodes
  /-- A data type is printed under the name that its definition is imported under; if the
  definition is an array, it is printed without a name. -/
  names : ∀ d name arguments, .data d name arguments ∈ e.nodes →
    ∃ i, Binding.import? g d = some i ∧ (g.element? d = some none → name = i.name) ∧
      ∀ element, g.element? d = some (some element) → name = ""
  keywords : ∀ text, .keyword text ∈ e.nodes →
    text = "void" ∨ ∃ n, primitiveTexts.lookup n = some text
  literals : ∀ text, .literal text ∈ e.nodes →
    ∃ ty n, g.metadataName? ty = some n ∧ texts.lookup n = some text

/-- A bound method and the expressions of its parameters and of its result. It refers to what they
refer to, each by itself. -/
def MethodRefersAs (g : TypeGraph) (w : WellKnown) (texts : List (String × String)) (role : Role)
    (m : ContractMethod) (bm : BoundMethod) (references : References) : Prop :=
  ∃ es result,
    List.Forall₂ (fun q e => expressionAt? g w texts .argument q.type = some e)
      (Binding.wireParameters w m) es ∧
    bm.parameters.map (·.text) = es.map print ∧
    expressionAt? g w texts (Binding.returnPosition role) m.returns = some result ∧
    bm.returnText = result.print ∧
    ∀ n, references.Holds n ↔ ∃ e ∈ es ++ [result], n ∈ e.notes

theorem TypeExpr.holds_rendered {e : TypeExpr} {n : Note} :
    e.rendered.references.Holds n ↔ n ∈ e.notes := by
  rw [rendered, References.holds_noteAll, or_iff_right References.not_holds_empty]

theorem TypeExpr.refersAs_rendered (hg : Consistent g) {e : TypeExpr}
    (h : ∀ node ∈ e.nodes, node.Stems g w texts) : RefersAs g texts e e.rendered where
  text := rfl
  wrappers _ := holds_rendered.trans mem_notes_wrapper
  dataTypes _ := holds_rendered.trans mem_notes_dataType
  names _ _ _ hnode := by
    obtain ⟨ty, hty⟩ := h _ hnode
    exact names_of_data hg hty
  keywords _ hnode := h _ hnode
  literals _ hnode := h _ hnode

section Consistent

variable (hg : Consistent g)
  (hw : ∀ {ty}, w.isTask ty = true → ∃ head, g.form? ty = some (.declared head))
include hg hw

/-- A bound type has an expression. It prints the text, and notes what the type mentions. -/
theorem expressionAt?_of_renders {text display : String} (hd : g.display? ty = some display)
    (h : Binding.Renders (renderAt? g w (Rule.withTexts texts)) p ty text) :
    ∃ e, expressionAt? g w texts p ty = some e ∧ text = e.print ∧
      ∀ n, Mentions g w (Rule.withTexts texts) p ty n ↔ n ∈ e.notes := by
  obtain ⟨r, hr, rfl⟩ := h
  obtain ⟨e, he, rfl, _⟩ := exists_expressionAt? hg hw (issued_of_display? hd) hr
  exact ⟨e, he, rfl, fun n => (renderAt?_mentions hr n).symm.trans holds_rendered⟩

private theorem expressions_of_parameters {ps : List Parameter} {bs : List BoundParameter}
    (h : List.Forall₂ (Binding.BindsParameter g (renderAt? g w (Rule.withTexts texts))) ps bs) :
    ∃ es, List.Forall₂ (fun q e => expressionAt? g w texts .argument q.type = some e) ps es ∧
      bs.map (·.text) = es.map print ∧
      ∀ n, (∃ q ∈ ps, Mentions g w (Rule.withTexts texts) .argument q.type n) ↔
        ∃ e ∈ es, n ∈ e.notes := by
  induction h with
  | nil => exact ⟨[], .nil, rfl, by simp⟩
  | cons hb _ ih =>
    obtain ⟨es, hes, htexts, hmentions⟩ := ih
    obtain ⟨e, he, htext, hmention⟩ := expressionAt?_of_renders hg hw hb.display hb.text
    refine ⟨e :: es, .cons he hes, ?_, fun n => ?_⟩
    · rw [List.map_cons, List.map_cons, htext, htexts]
    · simp only [List.exists_mem_cons_iff, hmention, hmentions]

private theorem methodRefersAs {c : Contract} {m : ContractMethod} {bm : BoundMethod}
    {references : References}
    (h : Binding.bindMethod? g w (Rule.withTexts texts) c m = some (.ok (bm, references))) :
    MethodRefersAs g w texts c.role m bm references := by
  have hbinds := Binding.bindMethodBy?_ok h
  obtain ⟨es, hes, htexts, hmentions⟩ := expressions_of_parameters hg hw hbinds.parameters
  obtain ⟨result, hresult, htext, hmention⟩ :=
    expressionAt?_of_renders hg hw hbinds.returnDisplay hbinds.returnText
  refine ⟨es, result, hes, htexts, hresult, htext, fun n => ?_⟩
  rw [Binding.bindMethod?_references h, Binding.MethodMentions, hmentions, hmention]
  simp only [List.mem_append, List.mem_singleton, or_and_right, exists_or, exists_eq_left]

end Consistent

/-- Whenever a run without rules of its own renders a type, the text is that of an expression, and
the references are those of its nodes. A bound method refers to what the expressions of its
parameters and of its result refer to. -/
theorem references_exact (hg : g.Reachable) {names : WellKnownNames}
    (hw : WellKnown.resolve g names = .ok w) (settings : Settings) :
    (∀ p ty r, g.Issued ty →
      renderAt? g w ({ settings } : Generator).allRules p ty = some (.ok r) →
        ∃ e, expressionAt? g w settings.types.overrides p ty = some e ∧
          RefersAs g settings.types.overrides e r) ∧
      ∀ c m bm references,
        Binding.bindMethod? g w ({ settings } : Generator).allRules c m =
            some (.ok (bm, references)) →
          MethodRefersAs g w settings.types.overrides c.role m bm references := by
  have hconsistent := hg.consistent
  have htasks : ∀ {ty}, w.isTask ty = true → ∃ head, g.form? ty = some (.declared head) :=
    fun h => WellKnown.resolve_isTask hg.coherent hw h
  rw [Generator.allRules_of_settings]
  refine ⟨fun p ty r hty h => ?_, fun c m bm references h => methodRefersAs hconsistent htasks h⟩
  obtain ⟨e, he, rfl, hstems⟩ := exists_expressionAt? hconsistent htasks hty h
  exact ⟨e, he, refersAs_rendered hconsistent hstems⟩

/-- Settings with a fixed text for items. -/
def wareSettings : Settings := { types := { overrides := [("Data.Item", "Ware")] } }

/-- The page of items is referred to, and the item with the fixed text is not. -/
theorem shopProgram_references :
    Client.shopProgram.Reachable ∧
      ∃ w e r, WellKnown.resolve Client.shopProgram {} = .ok w ∧ Client.shopProgram.Issued ⟨18⟩ ∧
        renderAt? Client.shopProgram w ({ settings := wareSettings } : Generator).allRules
          .hubReturn ⟨18⟩ = some (.ok r) ∧
        expressionAt? Client.shopProgram w wareSettings.types.overrides .hubReturn ⟨18⟩ = some e ∧
        e.nodes = [e, .data ⟨13⟩ "Page" [.literal "Ware"], .literal "Ware"] ∧
        r = { text := "Promise<Page<Ware>>", references := { dataTypes := [⟨13⟩] } } ∧
        RefersAs Client.shopProgram wareSettings.types.overrides e r := by
  obtain ⟨w, hw⟩ : ∃ w, WellKnown.resolve Client.shopProgram {} = .ok w := ⟨_, rfl⟩
  have hissued : Client.shopProgram.Issued ⟨18⟩ := by decide +kernel
  have hrender : renderAt? Client.shopProgram w ({ settings := wareSettings } : Generator).allRules
      .hubReturn ⟨18⟩ =
        some (.ok { text := "Promise<Page<Ware>>", references := { dataTypes := [⟨13⟩] } }) := by
    cases hw
    decide +kernel
  obtain ⟨e, he, hrefers⟩ :=
    (references_exact Client.shopProgram_reachable hw wareSettings).1 _ _ _ hissued hrender
  refine ⟨Client.shopProgram_reachable, w, e, _, hw, hissued, hrender, he, ?_, rfl, hrefers⟩
  cases hw
  cases he
  rfl

/-- The markers and a class. -/
def crateRuntime : TypeGraph :=
  TypeGraph.declareAll
    [{ head := { kind := .classType, nameSpace := "TypedSignalR.Client", name := "HubAttribute" } },
     { head :=
        { kind := .classType, nameSpace := "TypedSignalR.Client", name := "ReceiverAttribute" } },
     { head :=
        { kind := .classType, nameSpace := "Tapper", name := "TranspilationSourceAttribute" } },
     { head := { kind := .classType, name := "X" } }] {}

/-- An array of the class, a type constructed from the array, and a data type with the metadata name
of the array. -/
def crateTypes : TypeGraph :=
  TypeGraph.declareAll [{ head := { kind := .classType, name := "X[]" }, attributes := [⟨2⟩] }]
    ((crateRuntime.withArray ⟨3⟩).withConstruction ⟨4⟩ [])

private theorem crateTypes_reachable : crateTypes.Reachable := by
  have h₀ : crateRuntime.Reachable := .declareAll .empty (by decide +kernel)
  have he : crateRuntime.Issued ⟨3⟩ := by decide +kernel
  have h₁ : (crateRuntime.withArray ⟨3⟩).Reachable := .step h₀ (.arrayOf he rfl)
  have h₂ := h₁.withConstruction ⟨4⟩ [] (by decide +kernel) (by decide +kernel) rfl
  exact h₂.declareAll (by decide +kernel)

/-- No expression has the text of the constructed type and the array as a data type with the name
that it is imported under. -/
theorem crateTypes_misnamed :
    crateTypes.Reachable ∧
      ∃ w i, WellKnown.resolve crateTypes {} = .ok w ∧
        renderAt? crateTypes w ({} : Generator).allRules .argument ⟨5⟩ =
          some (.ok { text := "", references := { dataTypes := [⟨4⟩] } }) ∧
        Binding.import? crateTypes ⟨4⟩ = some i ∧ i.name = "X" ∧
        ∀ e : TypeExpr, e.print = "" → ∀ arguments, .data ⟨4⟩ i.name arguments ∉ e.nodes := by
  refine ⟨crateTypes_reachable, _, { nameSpace := "", name := "X" }, rfl, by decide +kernel,
    by decide +kernel, rfl, fun e he arguments hnode => ?_⟩
  cases e with
  | keyword text => simp [nodes] at hnode
  | literal text => simp [nodes] at hnode
  | data d name as =>
    cases as with
    | nil => simp_all [nodes, nodesAll, print]
    | cons a as => simp [print, inAngles] at he
  | _ => simp [print, inAngles] at he

end HubBindings
