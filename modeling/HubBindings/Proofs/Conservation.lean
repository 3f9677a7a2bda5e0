import HubBindings.Proofs.Generator
import HubBindings.Proofs.TypeGraph.Names

/-!
Conservation of methods. Every flattened method of a marked interface has exactly one outcome: it is
bound, or it is left out with one report.

* `Settled` walks along the flattened methods and gives each its outcome;
* `Accounts` is what becomes of one marked interface: a refusal or a bound contract;
* `settles` and `accounts` follow the two stages of a run, and `generateBy?_conserves` puts them
  together: the diagnostics of a run are the reports of its outcomes and nothing else.

Nothing here depends on how types are rendered, so all is said for any `Renderer`.
-/

namespace HubBindings.Conservation

open Contract Binding Sequencing

variable {g : TypeGraph} {w : WellKnown} {render : Renderer} {style : NamingStyle}

/-! ## Outcomes of methods -/

/-- What becomes of a method. -/
inductive Outcome where
  | bound (b : BoundMethod)
  /-- Left out because its generated name is in use. -/
  | collided (d : Diagnostic)
  /-- Left out because of its shape or its types. -/
  | rejected (d : Diagnostic)

namespace Outcome

/-- The bound method. -/
def method? : Outcome → Option BoundMethod
  | bound b => some b
  | _ => none

/-- The report of a collision. -/
def collision? : Outcome → Option Diagnostic
  | collided d => some d
  | _ => none

/-- The report of a shape or a type. -/
def rejection? : Outcome → Option Diagnostic
  | rejected d => some d
  | _ => none

end Outcome

/-- The outcome of a method that comes after the methods `earlier`, in a contract with the qualified
name `subject`. -/
inductive Decides (g : TypeGraph) (w : WellKnown) (render : Renderer) (subject : String)
    (role : Role) (earlier : List ContractMethod) (m : ContractMethod) : Outcome → Prop
  | bound {b : BoundMethod} :
      holder earlier m.localName = none → Binds g w render role m b →
        Decides g w render subject role earlier m (.bound b)
  | collided {first : ContractMethod} :
      holder earlier m.localName = some first →
        Decides g w render subject role earlier m (.collided
          { kind := .nameCollision
            subject
            method := some m.wireName
            message := "Generated name '" ++ m.localName ++ "' is already used by '"
              ++ first.wireName ++ "'" })
  | rejected {d : Diagnostic} :
      holder earlier m.localName = none → LeftOut g w render subject role m d →
        Decides g w render subject role earlier m (.rejected d)

/-- The outcomes of methods that come after the methods `earlier`. -/
inductive Settled (g : TypeGraph) (w : WellKnown) (render : Renderer) (style : NamingStyle)
    (subject : String) (role : Role) :
    (earlier : List ContractMethod) → List MethodId → List Outcome → Prop
  | nil {earlier : List ContractMethod} : Settled g w render style subject role earlier [] []
  | cons {earlier : List ContractMethod} {id : MethodId} {ids : List MethodId}
      {m : ContractMethod} {o : Outcome} {os : List Outcome} :
      describe? g w style id = some m → Decides g w render subject role earlier m o →
      Settled g w render style subject role (earlier ++ [m]) ids os →
        Settled g w render style subject role earlier (id :: ids) (o :: os)

/-- Names are checked first, and what is left is bound or left out. Both stages together give every
method its outcome. -/
theorem settles {c : Contract} {earlier all : List ContractMethod}
    {table : List (String × String)} {ids : List MethodId}
    {results : List (Except Diagnostic (BoundMethod × References))}
    (ht : Taken earlier table)
    (hids : List.Forall₂ (fun id m => describe? g w style id = some m) ids all)
    (hbind : List.Forall₂ (fun m r => bindMethodBy? g w render c m = some r)
      (rejectCollisions c.qualifiedName table all).1 results) :
    ∃ os, Settled g w render style c.qualifiedName c.role earlier ids os ∧
      (kept results).map (·.1) = os.filterMap Outcome.method? ∧
      (rejectCollisions c.qualifiedName table all).2 = os.filterMap Outcome.collision? ∧
      reports results = os.filterMap Outcome.rejection? := by
  induction hids generalizing earlier table results with
  | nil =>
    cases hbind
    exact ⟨[], .nil, rfl, rfl, rfl⟩
  | @cons id m ids all hm _ ih =>
    cases hfirst : holder earlier m.localName with
    | some first =>
      have hl : table.lookup m.localName = some first.wireName := by rw [ht, hfirst]; rfl
      simp only [rejectCollisions, hl] at hbind ⊢
      obtain ⟨os, hs, h₁, h₂, h₃⟩ := ih (ht.of_held hfirst) hbind
      exact ⟨_ :: os, .cons hm (.collided hfirst) hs, h₁, congrArg (_ :: ·) h₂, h₃⟩
    | none =>
      have hl : table.lookup m.localName = none := by rw [ht, hfirst]; rfl
      simp only [rejectCollisions, hl] at hbind ⊢
      cases hbind with
      | @cons _ r _ rs hr hrest =>
        obtain ⟨os, hs, h₁, h₂, h₃⟩ := ih (ht.of_free hfirst) hrest
        cases r with
        | ok q =>
          exact ⟨.bound q.1 :: os, .cons hm (.bound hfirst (bindMethodBy?_ok hr)) hs,
            congrArg (q.1 :: ·) h₁, h₂, h₃⟩
        | error d =>
          exact ⟨.rejected d :: os, .cons hm (.rejected hfirst (bindMethodBy?_error hr)) hs,
            h₁, h₂, congrArg (d :: ·) h₃⟩

/-! ## Outcomes of interfaces -/

/-- What becomes of a marked interface. -/
inductive Entry where
  | refused (d : Diagnostic)
  | contract (c : BoundContract) (outcomes : List Outcome)

namespace Entry

/-- The bound contract. -/
def contract? : Entry → Option BoundContract
  | refused _ => none
  | contract c _ => some c

/-- What discovery reports. -/
def discoveryReports : Entry → List Diagnostic
  | refused d => [d]
  | contract _ os => os.filterMap Outcome.collision?

/-- What binding reports. -/
def bindingReports : Entry → List Diagnostic
  | refused _ => []
  | contract _ os => os.filterMap Outcome.rejection?

end Entry

/-- What becomes of a marked interface with these fragments. -/
inductive Accounts (g : TypeGraph) (w : WellKnown) (render : Renderer) (style : NamingStyle)
    (role : Role) (fragments : List TypeId) : Entry → Prop
  | refused {first : TypeId} {subject : String} :
      fragments.head? = some first → g.qualifiedName? first = some subject →
      (∃ f ∈ fragments, g.isGeneric? f = some true) →
        Accounts g w render style role fragments (.refused
          { kind := .genericMisuse
            subject
            message := role.name ++ " marker cannot be applied to a generic interface" })
  | contract {first : TypeId} {c : BoundContract} {ids : List MethodId} {os : List Outcome} :
      fragments.head? = some first → g.qualifiedName? first = some c.qualifiedName →
      g.name? first = some c.name → g.nameSpace? first = some c.nameSpace → c.role = role →
      (∀ f ∈ fragments, g.isGeneric? f ≠ some true) →
      g.flattened? fragments = some ids →
      Settled g w render style c.qualifiedName role [] ids os →
      c.methods = os.filterMap Outcome.method? →
        Accounts g w render style role fragments (.contract c os)

variable {role : Role} {fragments : List TypeId}

private theorem accounts_of_bind {c : Contract} {discovered bound : List Diagnostic}
    {bc : BoundContract}
    (hf : ofFragments? g w style role fragments = some (some c, discovered))
    (hb : bindBy? g w render c = some (bc, bound)) :
    ∃ os, Accounts g w render style role fragments (.contract bc os) ∧
      discovered = os.filterMap Outcome.collision? ∧ bound = os.filterMap Outcome.rejection? := by
  obtain ⟨first, subject, hfirst, hsubject, hcases⟩ := ofFragments?_cases hf
  rcases hcases with ⟨_, e, _⟩ |
    ⟨hgeneric, ids, all, name, nameSpace, hids, hall, hname, hns, e, hds⟩
  · cases e
  · cases e
    obtain ⟨hn, hs, hq, hrole, results, hresults, hmethods, hreports⟩ := bindBy?_eq_some hb
    have ht : Taken [] [] := fun _ => rfl
    obtain ⟨os, hsettled, hkept, hcollisions, hrejections⟩ := settles ht hall hresults
    refine ⟨os, ?_, hds.trans hcollisions, hreports.trans hrejections⟩
    refine .contract hfirst ?_ ?_ ?_ hrole hgeneric hids ?_ (hmethods.trans hkept)
    · rw [hsubject, hq]
    · rw [hname, hn]
    · rw [hns, hs]
    · rw [hq]
      exact hsettled

private theorem accounts_of_refusal (render : Renderer) {ds : List Diagnostic}
    (hf : ofFragments? g w style role fragments = some (none, ds)) :
    ∃ d, Accounts g w render style role fragments (.refused d) ∧ ds = [d] := by
  obtain ⟨first, subject, hfirst, hsubject, hcases⟩ := ofFragments?_cases hf
  rcases hcases with ⟨hgeneric, _, rfl⟩ | ⟨_, _, _, _, _, _, _, _, _, e, _⟩
  · exact ⟨_, .refused hfirst hsubject hgeneric, rfl⟩
  · cases e

/-- Discovery looks at the groups in order, and binding at the contracts that discovery found. -/
theorem accounts {groups : List (String × List TypeId)}
    {found : List (Option Contract × List Diagnostic)}
    {bound : List (BoundContract × List Diagnostic)}
    (hfound : List.Forall₂ (fun entry f => ofFragments? g w style role entry.2 = some f)
      groups found)
    (hbound : List.Forall₂ (fun c b => bindBy? g w render c = some b)
      (found.filterMap (·.1)) bound) :
    ∃ entries,
      List.Forall₂ (fun entry e => Accounts g w render style role entry.2 e) groups entries ∧
      bound.map (·.1) = entries.filterMap Entry.contract? ∧
      found.flatMap (·.2) = entries.flatMap Entry.discoveryReports ∧
      bound.flatMap (·.2) = entries.flatMap Entry.bindingReports := by
  induction hfound generalizing bound with
  | nil =>
    cases hbound
    exact ⟨[], .nil, rfl, rfl, rfl⟩
  | @cons group f groups found hf _ ih =>
    obtain ⟨o, discovered⟩ := f
    cases o with
    | none =>
      obtain ⟨d, hd, rfl⟩ := accounts_of_refusal render hf
      obtain ⟨entries, he, h₁, h₂, h₃⟩ := ih hbound
      exact ⟨.refused d :: entries, .cons hd he, h₁, congrArg ([d] ++ ·) h₂, h₃⟩
    | some c =>
      cases hbound with
      | @cons _ b _ bs hb hrest =>
        obtain ⟨bc, reported⟩ := b
        obtain ⟨os, hos, rfl, rfl⟩ := accounts_of_bind hf hb
        obtain ⟨entries, he, h₁, h₂, h₃⟩ := ih hrest
        exact ⟨.contract bc os :: entries, .cons hos he, congrArg (bc :: ·) h₁,
          congrArg (_ ++ ·) h₂, congrArg (_ ++ ·) h₃⟩

/-! ## Runs -/

open Generator (scope prepare emit bindingsBy? generateBy?)

variable {settings : Settings}

/-- What becomes of the marked interfaces of a role: each interface is in one group, and each group
has one entry. -/
structure AccountsRole (settings : Settings) (g : TypeGraph) (w : WellKnown) (render : Renderer)
    (role : Role) (entries : List Entry) : Prop where
  grouped : Grouped g (marked g w (scope settings) role) (candidates g w (scope settings) role)
  covers : ∀ ty ∈ marked g w (scope settings) role,
    ∃ group ∈ candidates g w (scope settings) role, ty ∈ group.2
  entries : List.Forall₂
    (fun group e => Accounts g w render settings.methodStyle role group.2 e)
    (candidates g w (scope settings) role) entries

/-- Every marked interface and every method of a run is accounted for, and the diagnostics are the
reports about those left out. -/
def Conserves (settings : Settings) (g : TypeGraph) (render : WellKnown → Renderer)
    (out : Output) : Prop :=
  ∃ w b hubs receivers,
    prepare settings g = .ok w ∧ bindingsBy? settings g w (render w) = some b ∧
    out = emit settings b ∧
    AccountsRole settings g w (render w) .hub hubs ∧
    AccountsRole settings g w (render w) .receiver receivers ∧
    b.hubs = hubs.filterMap Entry.contract? ∧
    b.receivers = receivers.filterMap Entry.contract? ∧
    out.diagnostics = hubs.flatMap Entry.discoveryReports
      ++ receivers.flatMap Entry.discoveryReports
      ++ hubs.flatMap Entry.bindingReports
      ++ receivers.flatMap Entry.bindingReports

/-- The two stages of a role. -/
theorem accountsRole (hg : g.Reachable) {cs : List Contract} {bcs : List BoundContract}
    {discovered bound : List Diagnostic}
    (hfound : discoverRole? g w (scope settings) settings.methodStyle role = some (cs, discovered))
    (hbound : bindAllBy? g w render cs = some (bcs, bound)) :
    ∃ entries, AccountsRole settings g w render role entries ∧
      bcs = entries.filterMap Entry.contract? ∧
      discovered = entries.flatMap Entry.discoveryReports ∧
      bound = entries.flatMap Entry.bindingReports := by
  obtain ⟨found, hf, rfl, rfl⟩ := discoverRole?_eq_some hfound
  obtain ⟨results, hb, rfl, rfl⟩ := bindAllBy?_eq_some hbound
  obtain ⟨entries, he, h₁, h₂, h₃⟩ := accounts hf hb
  exact ⟨entries, ⟨groupByName_grouped _ _, fun _ => candidates_cover hg.coherent, he⟩, h₁, h₂, h₃⟩

theorem generateBy?_conserves {render : WellKnown → Renderer} {out : Output}
    (hg : g.Reachable)
    (h : generateBy? settings g render = some (.ok out)) : Conserves settings g render out := by
  obtain ⟨w, b, hw, hb, rfl⟩ := Generator.generateBy?_eq_ok h
  obtain ⟨found, hubBound, receiverBound, hrun, hh, hr, hdiagnostics⟩ :=
    Generator.bindingsBy?_eq_some hb
  obtain ⟨hubFound, receiverFound, hh', hr', hfound⟩ := run?_eq_some hrun
  obtain ⟨hubs, hhubs, h₁, h₂, h₃⟩ := accountsRole hg hh' hh
  obtain ⟨receivers, hreceivers, r₁, r₂, r₃⟩ := accountsRole hg hr' hr
  refine ⟨w, b, hubs, receivers, hw, hb, rfl, hhubs, hreceivers, h₁, r₁, ?_⟩
  calc (emit settings b).diagnostics
      = found.diagnostics ++ hubBound ++ receiverBound := hdiagnostics
    _ = hubFound ++ receiverFound ++ hubBound ++ receiverBound := by rw [hfound]
    _ = _ := by rw [h₂, r₂, h₃, r₃]

/-- A run conserves methods, by whatever rules, and also if types are rendered in any other way. -/
theorem generate?_conserves (hg : g.Reachable) :
    (∀ (x : Generator) (out : Output), x.generate? g = some (.ok out) →
      Conserves x.settings g (fun w => renderAt? g w x.allRules) out) ∧
    ∀ (settings : Settings) (render : WellKnown → Renderer) (out : Output),
      generateBy? settings g render = some (.ok out) → Conserves settings g render out :=
  ⟨fun _ _ h => generateBy?_conserves hg h, fun _ _ _ h => generateBy?_conserves hg h⟩

/-- A program with an interface that is a hub and a receiver, and with a generic hub. The interface
has a good method, a method whose name collides with it, one with a result that is no task and one
with a parameter of an unknown type. -/
def mixedProgram : TypeGraph :=
  TypeGraph.declareAll
    [{ head := { kind := .classType, nameSpace := "TypedSignalR.Client", name := "HubAttribute" } },
     { head :=
        { kind := .classType, nameSpace := "TypedSignalR.Client", name := "ReceiverAttribute" } },
     { head :=
        { kind := .classType, nameSpace := "Tapper", name := "TranspilationSourceAttribute" } },
     { head := { kind := .classType, nameSpace := "System.Threading.Tasks", name := "Task" } },
     { head := { kind := .interface, nameSpace := "App", name := "IChat" }
       attributes := [⟨0⟩, ⟨1⟩]
       methods :=
        [{ name := "Leave", returns := ⟨3⟩ },
         { name := "leave", returns := ⟨3⟩ },
         { name := "Poll", returns := ⟨2⟩ },
         { name := "Tell", parameters := [⟨"what", ⟨2⟩⟩], returns := ⟨3⟩ }] },
     { head := { kind := .interface, nameSpace := "App", name := "IBox", arity := 1 }
       attributes := [⟨0⟩] }] {}

theorem mixedProgram_reachable : mixedProgram.Reachable :=
  .declareAll .empty (by decide +kernel)

/-- Renders arguments without looking at their types, and nothing else. -/
def argumentsOnly : Renderer := fun p _ =>
  if p = .argument then some (.ok { text := "any", references := {} })
  else some (.error (.unsupported p.name))

theorem generate?_mixedProgram_conserves :
    mixedProgram.Reachable ∧
      (∃ out, ({} : Generator).generate? mixedProgram = some (.ok out) ∧
        out.diagnostics.map (fun d => (d.kind, d.subject, d.method)) =
          [(.nameCollision, "App.IChat", some "leave"),
           (.genericMisuse, "App.IBox", none),
           (.nameCollision, "App.IChat", some "leave"),
           (.shapeViolation, "App.IChat", some "Poll"),
           (.unsupportedType, "App.IChat", some "Tell"),
           (.shapeViolation, "App.IChat", some "Poll"),
           (.unsupportedType, "App.IChat", some "Tell")] ∧
        Conserves {} mixedProgram (fun w => renderAt? mixedProgram w ({} : Generator).allRules)
          out) ∧
      ∃ out, generateBy? {} mixedProgram (fun _ => argumentsOnly) = some (.ok out) ∧
        out.diagnostics.map (fun d => (d.kind, d.method, d.parameter)) =
          [(.nameCollision, some "leave", none),
           (.genericMisuse, none, none),
           (.nameCollision, some "leave", none),
           (.unsupportedType, some "Leave", none),
           (.shapeViolation, some "Poll", none),
           (.unsupportedType, some "Tell", none),
           (.unsupportedType, some "Leave", none),
           (.shapeViolation, some "Poll", none),
           (.unsupportedType, some "Tell", none)] ∧
        Conserves {} mixedProgram (fun _ => argumentsOnly) out := by
  obtain ⟨hrules, hany⟩ := generate?_conserves mixedProgram_reachable
  exact ⟨mixedProgram_reachable, ⟨_, rfl, by decide +kernel, hrules {} _ rfl⟩,
    _, rfl, by decide +kernel, hany {} _ _ rfl⟩

end HubBindings.Conservation
