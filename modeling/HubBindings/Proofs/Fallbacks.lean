import HubBindings.Proofs.Conservation
import HubBindings.Proofs.Outcome
import HubBindings.Proofs.Rendering.Trace

/-!
Fallbacks are asked last, so more of them change nothing that is rendered without them.

* `renderWithin_preserves`: a type that the rules can render is rendered in the same way if rules
  are appended, however deep the type is;
* `Outcome.Widens` and `Entry.Widens` say what more rules do to a method and to an interface:
  nothing, unless a type was unsupported;
* `fallbacks_conservative` puts this together for two runs, of which one has more fallbacks.
-/

namespace HubBindings

/-! ## Renderings -/

namespace RenderM

open Sequencing

variable {α : Type}

/-- Where `x` succeeds, `y` has the same value and notes the same. -/
def Preserves (x y : RenderM α) : Prop :=
  ∀ c a c', x.run c = some (.ok a, c') → y.run c = some (.ok a, c')

theorem Preserves.congruence : Congruence fun _ => Preserves where
  refl _ _ _ _ h := h
  bind := by
    intro _ _ x y k l hxy hkl c b c' h
    obtain ⟨a, c₁, hx, hk⟩ := run_bind_ok_iff.mp h
    exact run_bind_ok_iff.mpr ⟨a, c₁, hxy _ _ _ hx, hkl a _ _ _ hk⟩
  nested := by
    intro _ x y h c a c' hx
    rw [run_nested] at hx ⊢
    obtain ⟨⟨r, c₁⟩, hrun, e⟩ := Option.map_eq_some_iff.mp hx
    cases e
    rw [h _ _ _ hrun, Option.map_some]

/-- A refusal never succeeds. -/
theorem refuse_preserves (g : TypeGraph) (ty : TypeId) (y : RenderM String) :
    Preserves (refuse g ty) y := by
  intro c a c' h
  obtain ⟨_, _, _, hthrow⟩ := run_bind_ok_iff.mp h
  cases hthrow

end RenderM

open RenderM Sequencing

variable {g : TypeGraph} {w : WellKnown} {rules : List Rule}

/-- A type that the rules can render is rendered in the same way if rules are appended: at every
level of the type the same rule is found. -/
theorem renderWithin_preserves (rules extra : List Rule) (room : Nat) (ty : TypeId) :
    Preserves (renderWithin g w rules room ty) (renderWithin g w (rules ++ extra) room ty) := by
  induction room generalizing ty with
  | zero =>
    intro c a c' h
    cases h
  | succ room ih =>
    intro c a c' h
    rw [renderWithin, run_lift_bind] at h
    obtain ⟨found, hfound, h⟩ := Option.bind_eq_some_iff.mp h
    cases found with
    | none => exact refuse_preserves g ty _ _ _ _ h
    | some rule =>
      have hsame : Rule.find? g w (rules ++ extra) ty = some (some rule) := by
        rw [Rule.find?] at hfound ⊢
        rw [findM?_append, hfound]
      rw [renderWithin, run_lift_bind, hsame, Option.bind_some]
      exact rule.apply_congr Preserves.congruence ih ty _ _ _ h

private theorem renderAt?_append (extra : List Rule) {p : Position} {ty : TypeId} {r : Rendered}
    (h : renderAt? g w rules p ty = some (.ok r)) :
    renderAt? g w (rules ++ extra) p ty = some (.ok r) := by
  obtain ⟨⟨v, c⟩, hrun, e⟩ := Option.map_eq_some_iff.mp h
  cases v with
  | error _ => cases e
  | ok text =>
    rw [renderAt?, renderType, renderWithin_preserves rules extra _ ty _ _ _ hrun, Option.map_some]
    exact congrArg some e

/-! ## Methods -/

namespace Binding

variable {role : Role} {m : ContractMethod}

theorem Renders.append (extra : List Rule) {p : Position} {ty : TypeId} {text : String}
    (h : Renders (renderAt? g w rules) p ty text) :
    Renders (renderAt? g w (rules ++ extra)) p ty text := by
  obtain ⟨r, hr, htext⟩ := h
  exact ⟨r, renderAt?_append extra hr, htext⟩

theorem Binds.append (extra : List Rule) {b : BoundMethod}
    (h : Binds g w (renderAt? g w rules) role m b) :
    Binds g w (renderAt? g w (rules ++ extra)) role m b :=
  { h with
    parameters := h.parameters.imp fun _ _ hp => { hp with text := hp.text.append extra }
    returnText := h.returnText.append extra }

/-- A method that is left out stays left out for its shape. If a type was the reason, a type is the
reason after more rules are there. -/
theorem LeftOut.append {subject : String} {d d' : Diagnostic} {extra : List Rule}
    (h : LeftOut g w (renderAt? g w rules) subject role m d)
    (h' : LeftOut g w (renderAt? g w (rules ++ extra)) subject role m d') :
    d' = d ∨ d.kind = .unsupportedType ∧ d'.kind = .unsupportedType ∧ d'.subject = d.subject ∧
      d'.method = d.method := by
  cases h with
  | shape hv =>
    cases h' with
    | shape hv' =>
      cases hv.symm.trans hv'
      exact .inl rfl
    | parameter hv' _ _ _ => cases hv.symm.trans hv'
    | result hv' _ _ => cases hv.symm.trans hv'
  | parameter hv _ _ _ =>
    cases h' with
    | shape hv' => cases hv.symm.trans hv'
    | _ => exact .inr ⟨rfl, rfl, rfl, rfl⟩
  | result hv _ _ =>
    cases h' with
    | shape hv' => cases hv.symm.trans hv'
    | _ => exact .inr ⟨rfl, rfl, rfl, rfl⟩

/-- A method that is bound only after more rules are there had an unsupported type. -/
theorem LeftOut.of_binds_append {subject : String} {d : Diagnostic} {extra : List Rule}
    {b : BoundMethod} (h : LeftOut g w (renderAt? g w rules) subject role m d)
    (h' : Binds g w (renderAt? g w (rules ++ extra)) role m b) :
    d.kind = .unsupportedType ∧ d.method = some b.wireName := by
  cases h with
  | shape hv => cases hv.symm.trans h'.admitted
  | _ => exact ⟨rfl, congrArg some h'.wireName.symm⟩

end Binding

namespace Conservation

open Binding

variable {style : NamingStyle} {subject : String} {role : Role} {extra : List Rule}

/-- What more rules do to a method. Only an unsupported type makes a difference: the method is bound
then, or it is left out for an unsupported type again. -/
inductive Outcome.Widens : Outcome → Outcome → Prop
  | same (o : Outcome) : Outcome.Widens o o
  | bound {d : Diagnostic} {b : BoundMethod} :
      d.kind = .unsupportedType → d.method = some b.wireName →
        Outcome.Widens (.rejected d) (.bound b)
  | rejected {d d' : Diagnostic} :
      d.kind = .unsupportedType → d'.kind = .unsupportedType → d'.subject = d.subject →
      d'.method = d.method → Outcome.Widens (.rejected d) (.rejected d')

theorem Decides.widens {earlier : List ContractMethod} {m : ContractMethod} {o o' : Outcome}
    (h : Decides g w (renderAt? g w rules) subject role earlier m o)
    (h' : Decides g w (renderAt? g w (rules ++ extra)) subject role earlier m o') :
    o.Widens o' := by
  cases h with
  | bound hfree hb =>
    cases h' with
    | bound _ hb' =>
      cases (hb.append extra).unique hb'
      exact .same _
    | collided hheld => cases hfree.symm.trans hheld
    | rejected _ hout => exact absurd hout (hb.append extra).not_leftOut
  | collided hheld =>
    cases h' with
    | bound hfree _ => cases hfree.symm.trans hheld
    | collided hheld' =>
      cases hheld.symm.trans hheld'
      exact .same _
    | rejected hfree _ => cases hfree.symm.trans hheld
  | rejected hfree hout =>
    cases h' with
    | bound _ hb' =>
      obtain ⟨hkind, hmethod⟩ := hout.of_binds_append hb'
      exact .bound hkind hmethod
    | collided hheld => cases hfree.symm.trans hheld
    | rejected _ hout' =>
      obtain rfl | ⟨hkind, hkind', hsubject, hmethod⟩ := hout.append hout'
      · exact .same _
      · exact .rejected hkind hkind' hsubject hmethod

/-- Along the methods of an interface, each outcome is widened in its place. -/
theorem Settled.widens {earlier : List ContractMethod} {ids : List MethodId} {os os' : List Outcome}
    (h : Settled g w (renderAt? g w rules) style subject role earlier ids os)
    (h' : Settled g w (renderAt? g w (rules ++ extra)) style subject role earlier ids os') :
    List.Forall₂ Outcome.Widens os os' := by
  induction h generalizing os' with
  | nil =>
    cases h'
    exact .nil
  | cons hm hd _ ih =>
    cases h' with
    | cons hm' hd' hrest' =>
      cases hm.symm.trans hm'
      exact .cons (hd.widens hd') (ih hrest')

private theorem methods_of_widens {os os' : List Outcome} (h : List.Forall₂ Outcome.Widens os os') :
    (os.filterMap Outcome.method?).Sublist (os'.filterMap Outcome.method?) := by
  induction h with
  | nil => exact .slnil
  | @cons o _ _ _ ho _ ih =>
    cases ho with
    | same =>
      cases o with
      | bound b => exact ih.cons_cons b
      | _ => exact ih
    | bound _ _ => exact ih.cons _
    | rejected _ _ _ _ => exact ih

private theorem collisions_of_widens {os os' : List Outcome}
    (h : List.Forall₂ Outcome.Widens os os') :
    os'.filterMap Outcome.collision? = os.filterMap Outcome.collision? := by
  induction h with
  | nil => rfl
  | cons ho _ ih =>
    cases ho with
    | same => rw [List.filterMap_cons, List.filterMap_cons, ih]
    | _ => exact ih

/-- The methods with an unsupported type among the diagnostics. -/
def unsupportedMethods (ds : List Diagnostic) : List (String × Option String) :=
  (ds.filter (·.kind = .unsupportedType)).map fun d => (d.subject, d.method)

/-- The second list has the same diagnostics of every kind but one. Methods with an unsupported type
may be missing in it, but it has no new ones. -/
structure Relieves (ds ds' : List Diagnostic) : Prop where
  others : ds'.filter (·.kind ≠ .unsupportedType) = ds.filter (·.kind ≠ .unsupportedType)
  unsupported : (unsupportedMethods ds').Sublist (unsupportedMethods ds)

theorem Relieves.refl (ds : List Diagnostic) : Relieves ds ds := ⟨rfl, .refl _⟩

theorem Relieves.append {ds ds' es es' : List Diagnostic} (h : Relieves ds ds')
    (h' : Relieves es es') : Relieves (ds ++ es) (ds' ++ es') := by
  refine ⟨?_, ?_⟩
  · rw [List.filter_append, List.filter_append, h.others, h'.others]
  · simp only [unsupportedMethods, List.filter_append, List.map_append]
    exact h.unsupported.append h'.unsupported

theorem Relieves.of_unsupported {d : Diagnostic} (hd : d.kind = .unsupportedType) :
    Relieves [d] [] := by
  refine ⟨?_, List.nil_sublist _⟩
  simp [hd]

theorem Relieves.of_same_method {d d' : Diagnostic} (hd : d.kind = .unsupportedType)
    (hd' : d'.kind = .unsupportedType) (hsubject : d'.subject = d.subject)
    (hmethod : d'.method = d.method) : Relieves [d] [d'] := by
  refine ⟨?_, ?_⟩
  · simp [hd, hd']
  · simp [unsupportedMethods, hd, hd', hsubject, hmethod]

private theorem rejections_of_widens {os os' : List Outcome}
    (h : List.Forall₂ Outcome.Widens os os') :
    Relieves (os.filterMap Outcome.rejection?) (os'.filterMap Outcome.rejection?) := by
  induction h with
  | nil => exact .refl _
  | @cons o _ _ _ ho _ ih =>
    cases ho with
    | same =>
      cases o with
      | rejected d => exact (Relieves.refl [d]).append ih
      | _ => exact ih
    | bound hkind _ => exact (Relieves.of_unsupported hkind).append ih
    | rejected hkind hkind' hsubject hmethod =>
      exact (Relieves.of_same_method hkind hkind' hsubject hmethod).append ih

/-! ## Interfaces -/

/-- The contract has the same names, and all methods of the other in their order. -/
structure Contains (c c' : BoundContract) : Prop where
  name : c'.name = c.name
  nameSpace : c'.nameSpace = c.nameSpace
  qualifiedName : c'.qualifiedName = c.qualifiedName
  role : c'.role = c.role
  methods : c.methods.Sublist c'.methods

/-- What more rules do to a marked interface. -/
inductive Entry.Widens : Entry → Entry → Prop
  | refused (d : Diagnostic) : Entry.Widens (.refused d) (.refused d)
  | contract {c c' : BoundContract} {os os' : List Outcome} :
      Contains c c' → List.Forall₂ Outcome.Widens os os' →
        Entry.Widens (.contract c os) (.contract c' os')

theorem Accounts.widens {fragments : List TypeId} {e e' : Entry}
    (h : Accounts g w (renderAt? g w rules) style role fragments e)
    (h' : Accounts g w (renderAt? g w (rules ++ extra)) style role fragments e') : e.Widens e' := by
  cases h with
  | refused hfirst hsubject hgeneric =>
    cases h' with
    | refused hfirst' hsubject' _ =>
      cases hfirst.symm.trans hfirst'
      cases hsubject.symm.trans hsubject'
      exact .refused _
    | contract _ _ _ _ _ hplain _ _ _ =>
      obtain ⟨f, hf, hgeneric⟩ := hgeneric
      exact absurd hgeneric (hplain f hf)
  | contract hfirst hq hn hns hrole hplain hids hsettled hmethods =>
    cases h' with
    | refused _ _ hgeneric =>
      obtain ⟨f, hf, hgeneric⟩ := hgeneric
      exact absurd hgeneric (hplain f hf)
    | contract hfirst' hq' hn' hns' hrole' _ hids' hsettled' hmethods' =>
      cases hfirst.symm.trans hfirst'
      cases hids.symm.trans hids'
      have hqualified := Option.some.inj (hq'.symm.trans hq)
      rw [hqualified] at hsettled'
      have hwidens := hsettled.widens hsettled'
      refine .contract ⟨?_, ?_, hqualified, hrole'.trans hrole.symm, ?_⟩ hwidens
      · exact Option.some.inj (hn'.symm.trans hn)
      · exact Option.some.inj (hns'.symm.trans hns)
      · rw [hmethods, hmethods']
        exact methods_of_widens hwidens

private theorem contracts_of_widens {es es' : List Entry} (h : List.Forall₂ Entry.Widens es es') :
    List.Forall₂ Contains (es.filterMap Entry.contract?) (es'.filterMap Entry.contract?) := by
  induction h with
  | nil => exact .nil
  | cons he _ ih =>
    cases he with
    | refused _ => exact ih
    | contract hc _ => exact .cons hc ih

private theorem discoveryReports_of_widens {es es' : List Entry}
    (h : List.Forall₂ Entry.Widens es es') :
    es'.flatMap Entry.discoveryReports = es.flatMap Entry.discoveryReports := by
  induction h with
  | nil => rfl
  | cons he _ ih =>
    rw [List.flatMap_cons, List.flatMap_cons, ih]
    cases he with
    | refused _ => rfl
    | contract _ hos =>
      rw [Entry.discoveryReports, Entry.discoveryReports, collisions_of_widens hos]

private theorem bindingReports_of_widens {es es' : List Entry}
    (h : List.Forall₂ Entry.Widens es es') :
    Relieves (es.flatMap Entry.bindingReports) (es'.flatMap Entry.bindingReports) := by
  induction h with
  | nil => exact .refl _
  | cons he _ ih =>
    cases he with
    | refused _ => exact ih
    | contract _ hos => exact (rejections_of_widens hos).append ih

/-! ## Runs -/

open Generator (scope prepare emit Bindings)

variable {x : Generator} {b b' : Bindings}

/-- What becomes of all marked interfaces of a run, and what the run has to show for it. -/
structure AccountsRun (x : Generator) (g : TypeGraph) (w : WellKnown) (b : Bindings)
    (hubs receivers : List Entry) : Prop where
  accountsHubs : AccountsRole x.settings g w (renderAt? g w x.allRules) .hub hubs
  accountsReceivers : AccountsRole x.settings g w (renderAt? g w x.allRules) .receiver receivers
  boundHubs : b.hubs = hubs.filterMap Entry.contract?
  boundReceivers : b.receivers = receivers.filterMap Entry.contract?
  diagnostics : b.diagnostics = hubs.flatMap Entry.discoveryReports
    ++ receivers.flatMap Entry.discoveryReports ++ hubs.flatMap Entry.bindingReports
    ++ receivers.flatMap Entry.bindingReports

private theorem bindings?_accountsRun (hg : g.Reachable) (h : x.bindings? g w = some b) :
    ∃ hubs receivers, AccountsRun x g w b hubs receivers := by
  obtain ⟨found, _, _, hrun, hhubs, hreceivers, hdiagnostics⟩ := Generator.bindings?_eq_some h
  obtain ⟨_, _, hhubs', hreceivers', hfound⟩ := Contract.run?_eq_some hrun
  obtain ⟨hubs, accountsHubs, h₁, h₂, h₃⟩ := accountsRole hg hhubs' hhubs
  obtain ⟨receivers, accountsReceivers, r₁, r₂, r₃⟩ := accountsRole hg hreceivers' hreceivers
  refine ⟨hubs, receivers, accountsHubs, accountsReceivers, h₁, r₁, ?_⟩
  rw [hdiagnostics, hfound, h₂, h₃, r₂, r₃]

end Conservation

namespace Generator

open Conservation

/-- The generator with more fallbacks after its own. -/
def withFallbacks (x : Generator) (extra : List CustomRule) : Generator :=
  { x with fallbacks := x.fallbacks ++ extra }

private theorem allRules_withFallbacks (x : Generator) (extra : List CustomRule) :
    (x.withFallbacks extra).allRules = x.allRules ++ extra.map .custom := by
  simp [allRules, withFallbacks]

/-- A run and the same run with more fallbacks: every interface and every method has its outcome
widened in its place. -/
structure Widened (x x' : Generator) (g : TypeGraph) (w : WellKnown) (b b' : Bindings) : Prop where
  entries : ∃ hubs hubs' receivers receivers',
    AccountsRun x g w b hubs receivers ∧ AccountsRun x' g w b' hubs' receivers' ∧
      List.Forall₂ Entry.Widens hubs hubs' ∧ List.Forall₂ Entry.Widens receivers receivers'
  hubs : List.Forall₂ Contains b.hubs b'.hubs
  receivers : List.Forall₂ Contains b.receivers b'.receivers
  diagnostics : Relieves b.diagnostics b'.diagnostics

variable {x : Generator} {extra : List CustomRule} {role : Role} {b b' : Bindings}

private theorem accountsRole_widens {es es' : List Entry}
    (h : AccountsRole x.settings g w (renderAt? g w x.allRules) role es)
    (h' : AccountsRole x.settings g w (renderAt? g w (x.withFallbacks extra).allRules) role es') :
    List.Forall₂ Entry.Widens es es' := by
  have hentries := h'.entries
  rw [allRules_withFallbacks] at hentries
  exact forall₂_of_common h.entries hentries fun _ _ _ he he' => he.widens he'

private theorem bindings?_widened (hg : g.Reachable) (hb : x.bindings? g w = some b)
    (hb' : (x.withFallbacks extra).bindings? g w = some b') :
    Widened x (x.withFallbacks extra) g w b b' := by
  obtain ⟨hubs, receivers, h⟩ := bindings?_accountsRun hg hb
  obtain ⟨hubs', receivers', h'⟩ := bindings?_accountsRun hg hb'
  have hhubs := accountsRole_widens h.accountsHubs h'.accountsHubs
  have hreceivers := accountsRole_widens h.accountsReceivers h'.accountsReceivers
  refine ⟨⟨hubs, hubs', receivers, receivers', h, h', hhubs, hreceivers⟩, ?_, ?_, ?_⟩
  · rw [h.boundHubs, h'.boundHubs]
    exact contracts_of_widens hhubs
  · rw [h.boundReceivers, h'.boundReceivers]
    exact contracts_of_widens hreceivers
  · rw [h.diagnostics, h'.diagnostics, discoveryReports_of_widens hhubs,
      discoveryReports_of_widens hreceivers]
    exact ((Relieves.refl _).append (bindingReports_of_widens hhubs)).append
      (bindingReports_of_widens hreceivers)

/-- More fallbacks change no rendering that there is without them. A run with more fallbacks fails
as before, or it keeps all bound methods and all diagnostics but those about unsupported types, of
which there are no new ones. -/
theorem fallbacks_conservative (hg : g.Reachable) (x : Generator) (extra : List CustomRule) :
    (∀ w p ty r, renderAt? g w x.allRules p ty = some (.ok r) →
      renderAt? g w (x.withFallbacks extra).allRules p ty = some (.ok r)) ∧
    ((∃ e, x.generate? g = some (.error e) ∧
        (x.withFallbacks extra).generate? g = some (.error e)) ∨
      ∃ w b b', prepare x.settings g = .ok w ∧
        x.bindings? g w = some b ∧ (x.withFallbacks extra).bindings? g w = some b' ∧
        x.generate? g = some (.ok (emit x.settings b)) ∧
        (x.withFallbacks extra).generate? g = some (.ok (emit x.settings b')) ∧
        Widened x (x.withFallbacks extra) g w b b') := by
  refine ⟨fun w p ty r hr => ?_, ?_⟩
  · rw [allRules_withFallbacks]
    exact renderAt?_append _ hr
  · cases hw : prepare x.settings g with
    | error e => exact .inl ⟨_, generate?_eq_error_iff.mpr hw, generate?_eq_error_iff.mpr hw⟩
    | ok w =>
      obtain ⟨b, hb, hrun⟩ := generate?_of_prepare hg.consistent hw
      have hw' : prepare (x.withFallbacks extra).settings g = .ok w := hw
      obtain ⟨b', hb', hrun'⟩ := generate?_of_prepare hg.consistent hw'
      exact .inr ⟨w, b, b', rfl, hb, hb', hrun, hrun', bindings?_widened hg hb hb'⟩

/-- A fallback for one type that no other rule renders. -/
def markerFallback : CustomRule :=
  { pattern := "Tapper.TranspilationSourceAttribute", action := .text, text := "Marker" }

theorem mixedProgram_widened :
    mixedProgram.Reachable ∧
      ∃ w b b', ({} : Generator).bindings? mixedProgram w = some b ∧
        (withFallbacks {} [markerFallback]).bindings? mixedProgram w = some b' ∧
        (b.hubs ++ b.receivers).map (·.methods.map (·.wireName)) = [["Leave"], ["Leave"]] ∧
        (b'.hubs ++ b'.receivers).map (·.methods.map (·.wireName)) =
          [["Leave", "Tell"], ["Leave", "Tell"]] ∧
        b'.diagnostics.map (·.kind) =
          [.nameCollision, .genericMisuse, .nameCollision, .shapeViolation, .shapeViolation] ∧
        Widened {} (withFallbacks {} [markerFallback]) mixedProgram w b b' := by
  obtain ⟨_, ⟨e, hfail, _⟩ | ⟨w, b, b', hw, hb, hb', _, _, hwidened⟩⟩ :=
    fallbacks_conservative mixedProgram_reachable {} [markerFallback]
  · cases hfail
  · cases hw
    cases hb
    cases hb'
    exact ⟨mixedProgram_reachable, _, _, _, rfl, rfl, by decide +kernel, by decide +kernel,
      by decide +kernel, hwidened⟩

end Generator

end HubBindings
