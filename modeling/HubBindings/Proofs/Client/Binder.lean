import HubBindings.Proofs.Agreement
import HubBindings.Proofs.Client.Proxy
import HubBindings.Proofs.Rendering.Positions
import Mathlib.Data.List.Nodup

/-!
Binders and the types of the receivers they call.

An interface with both markers has one exported type, written from its hub. Its binder is written
from its receiver, and the roles do not admit the same methods: a receiver may take a stream and
answer with a value, a hub may not. `listeners_find_members` says that this is the only way in which
a listener calls a member that the exported type does not have, and `relayProgram_listener_lost`
that it happens.
-/

namespace HubBindings.Client

open Contract Binding Generator Sequencing Text

variable {x : Generator} {g : TypeGraph} {w : WellKnown} {b : Bindings} {r : BoundContract}

/-! ## Members and listeners -/

/-- A contract has a method that the listener of a method can call, with its name and its
parameters, or is known to have none under its name. -/
structure Answers (c : BoundContract) (bm : BoundMethod) (lost : Prop) : Prop where
  found : ¬ lost → ∃ m ∈ c.methods, m.localName = bm.localName ∧ m.parameters = bm.parameters
  missing : lost → ∀ m ∈ c.methods, m.localName ≠ bm.localName

/-- The same of the members that a file shows for a contract. -/
structure AnswersShown (e : LineEnding) (c : BoundContract) (bm : BoundMethod) (lost : Prop) :
    Prop where
  found : ¬ lost → ∃ m ∈ (c.withBreaks e).methods,
    m.localName = (bm.withBreaks e).localName ∧ m.parameters = (bm.withBreaks e).parameters
  /-- If the method is lost, only one whose name differs from its name in line breaks is shown under
  its name. -/
  missing : lost → ((∃ m ∈ (c.withBreaks e).methods, m.localName = (bm.withBreaks e).localName) ↔
    ∃ m ∈ c.methods, m.localName ≠ bm.localName ∧
      withBreaks e m.localName = withBreaks e bm.localName)

theorem Answers.shown {c : BoundContract} {bm : BoundMethod} {lost : Prop} (h : Answers c bm lost)
    (e : LineEnding) : AnswersShown e c bm lost where
  found hlost := by
    obtain ⟨m, hm, hname, hparameters⟩ := h.found hlost
    refine ⟨m.withBreaks e, List.mem_map_of_mem hm, congrArg (withBreaks e) hname, ?_⟩
    exact congrArg (List.map (·.withBreaks e)) hparameters
  missing hlost := by
    constructor
    · rintro ⟨_, hm', hname⟩
      obtain ⟨m, hm, rfl⟩ := List.mem_map.mp hm'
      exact ⟨m, hm, h.missing hlost m hm, hname⟩
    · rintro ⟨m, hm, _, hname⟩
      exact ⟨m.withBreaks e, List.mem_map_of_mem hm, hname⟩

/-! ## Methods in both roles -/

/-- A stream of the caller that is answered with a value. A receiver admits it, a hub does not. -/
def AnsweredUpload (w : WellKnown) (shape : CallShape) (returns : TypeId) : Prop :=
  shape = .clientStream ∧ w.isTask returns = false

section Roles

variable {names : WellKnownNames} {m : ContractMethod} {bm : BoundMethod}
  (hg : g.Coherent) (hw : WellKnown.resolve g names = .ok w)
  (hbm : Binds g w (renderAt? g w x.allRules) .receiver m bm)
include hg hw hbm

/-- What a receiver binds, a hub leaves out for its shape only. -/
theorem shape_of_leftOut {subject : String} {d : Diagnostic}
    (h : LeftOut g w (renderAt? g w x.allRules) subject .hub m d) :
    AnsweredUpload w m.call.shape m.returns := by
  cases h with
  | shape hv => exact Call.hubViolation?_of_receiver hbm.admitted hv
  | parameter _ hparameters _ hrefused =>
    have hmem : _ ∈ wireParameters w m := hparameters ▸ List.mem_append_right _ List.mem_cons_self
    obtain ⟨_, _, hp⟩ := exists_of_mem_left hbm.parameters hmem
    obtain ⟨_, hr, _⟩ := hp.text
    cases hr.symm.trans hrefused
  | result _ _ hrefused =>
    exact absurd hrefused (renders_hubReturn hg hw hbm.admitted hbm.returnText _)

variable {c : Contract} {hub : BoundContract} {ds : List Diagnostic}
  (hmethods : (c.methods.map (·.localName)).Nodup) (hm : m ∈ c.methods) (hrole : c.role = .hub)
  (hbind : bind? g w x.allRules c = some (hub, ds))
include hmethods hm hrole hbind

private theorem hub_answers : Answers hub bm (AnsweredUpload w m.call.shape m.returns) := by
  constructor
  · intro hkept
    rcases bindBy?_settles hbind hm with ⟨bm', hbm', hbinds⟩ | ⟨d, hleft⟩
    · exact ⟨bm', hbm', hbinds.localName.trans hbm.localName.symm, hbm.parameters_eq hbinds⟩
    · exact absurd (shape_of_leftOut hg hw hbm (hrole ▸ hleft)) hkept
  · rintro ⟨hshape, htask⟩ bm' hbm' hname
    obtain ⟨ms, hms, hall⟩ := bindBy?_binds hbind
    obtain ⟨m', hm', hbinds⟩ := exists_of_mem_right hall hbm'
    -- generated names are unique in a contract
    have hsame : m' = m := List.inj_on_of_nodup_map hmethods (hms.subset hm') hm
      (hbinds.localName.symm.trans (hname.trans hbm.localName))
    have hadmitted : Call.hubViolation? g w .clientStream m.returns = some none := by
      have h := hbinds.admitted
      rw [hrole, hsame, hshape] at h
      exact h
    have htask' : w.isTask m.returns = true := Call.hubViolation?_eq_none hadmitted
    cases htask.symm.trans htask'

end Roles

/-! ## Binders of a run -/

/-- The listener of a method waits for a declared method, and the type that is exported for its
receiver has a member for it unless a hub of the same interface leaves the method out. -/
def ListensFor (x : Generator) (g : TypeGraph) (w : WellKnown) (b : Bindings)
    (r c : BoundContract) (id : MethodId) (bm : BoundMethod) : Prop :=
  ∃ decl call lost, g.method? id = some decl ∧ Call.classify? g w decl = some call ∧
    bm.wireName = decl.name ∧ bm.localName = x.settings.methodStyle.apply decl.name ∧
    (lost ↔ (∃ hub ∈ b.hubs, hub.qualifiedName = r.qualifiedName) ∧
      AnsweredUpload w call.shape decl.returns) ∧
    Answers c bm lost ∧ AnswersShown x.settings.output.lineEnding c bm lost

/-- The binder of a receiver, with the type that is exported under the qualified name of the
receiver. -/
structure Calls (x : Generator) (g : TypeGraph) (w : WellKnown) (b : Bindings)
    (r : BoundContract) : Prop where
  printed : binderLines (shown x r) <:+: aggregateLines x b
  exported : ∃ c f, firstNamed (b.hubs ++ b.receivers) r.qualifiedName = some c ∧
    c.name = r.name ∧ f ∈ files x b ∧ f.module = moduleName r.nameSpace ∧
    (∀ other ∈ files x b, other.module = f.module → other = f) ∧
    c ∈ written (b.hubs ++ b.receivers) f.module ∧
    typeLines x.settings.output.emitDocs (shown x c) <:+: interfaceLines x b f ∧
    -- other types of that name belong to a namespace that shares the file
    (∀ d ∈ written (b.hubs ++ b.receivers) f.module, d ≠ c → d.name = r.name →
      SharedFile d.nameSpace r.nameSpace) ∧
    ∃ group ∈ candidates g w (scope x.settings) .receiver, group.1 = r.qualifiedName ∧
      ∃ ids kept, g.flattened? group.2 = some ids ∧ kept.Sublist ids ∧
        List.Forall₂ (ListensFor x g w b r c) kept r.methods

section Run

variable (hg : g.Coherent) (hb : x.bindings? g w = some b)
include hg hb

/-- The first contract with the name of a receiver is a hub, or it is the receiver. -/
theorem firstNamed_receiver (hr : r ∈ b.receivers) :
    ∃ c, firstNamed (b.hubs ++ b.receivers) r.qualifiedName = some c ∧
      (c ∈ b.hubs ∧ c.qualifiedName = r.qualifiedName ∨
        c = r ∧ ¬ ∃ hub ∈ b.hubs, hub.qualifiedName = r.qualifiedName) := by
  rw [firstNamed_append]
  cases hhub : firstNamed b.hubs r.qualifiedName with
  | some hub =>
    exact ⟨hub, rfl, .inl ⟨List.mem_of_find?_eq_some hhub, by simpa using List.find?_some hhub⟩⟩
  | none =>
    refine ⟨r, firstNamed_of_nodup ((bindings?_boundRole hb).2.nodup hg) hr, .inr ⟨rfl, ?_⟩⟩
    rintro ⟨hub, hmem, hname⟩
    exact List.find?_eq_none.mp hhub hub hmem (by simpa using hname)

/-- The exported type of a receiver answers all its listeners but those of answered uploads, which
it answers if no hub comes first. -/
theorem exported_answers {names : WellKnownNames} (hw : WellKnown.resolve g names = .ok w)
    (hr : r ∈ b.receivers) {c : BoundContract}
    (hfirst : firstNamed (b.hubs ++ b.receivers) r.qualifiedName = some c)
    {group : String × List TypeId} (hgroup : group ∈ candidates g w (scope x.settings) .receiver)
    (hkey : group.1 = r.qualifiedName) {cr : Contract} {ds ds' : List Diagnostic}
    (hcr : ofFragments? g w x.settings.methodStyle .receiver group.2 = some (some cr, ds))
    (hbind : bind? g w x.allRules cr = some (r, ds')) :
    c.name = r.name ∧ c.nameSpace = r.nameSpace ∧
      ∀ m ∈ cr.methods, ∀ bm ∈ r.methods, Binds g w (renderAt? g w x.allRules) .receiver m bm →
        Answers c bm ((∃ hub ∈ b.hubs, hub.qualifiedName = r.qualifiedName) ∧
          AnsweredUpload w m.call.shape m.returns) := by
  obtain ⟨c', hfirst', hcases⟩ := firstNamed_receiver hg hb hr
  cases hfirst.symm.trans hfirst'
  rcases hcases with ⟨hhub, hname⟩ | ⟨rfl, hnone⟩
  · obtain ⟨group', hgroup', hkey', ch, _, _, hch, hbind'⟩ :=
      (bindings?_boundRole hb).1.exists_group hg hhub
    have htwin : ch = { cr with role := .hub } :=
      ofFragments?_twin hg hgroup hgroup' (by rw [hkey, hkey', hname]) hcr hch
    subst htwin
    obtain ⟨hn, hns, _⟩ := bindBy?_eq_some hbind
    obtain ⟨hn', hns', _⟩ := bindBy?_eq_some hbind'
    refine ⟨hn'.trans hn.symm, hns'.trans hns.symm, fun m hm bm _ hbm => ?_⟩
    rw [and_iff_right ⟨c, hhub, hname⟩]
    exact hub_answers hg hw hbm (ofFragments?_localNames hch) hm rfl hbind'
  · refine ⟨rfl, rfl, fun m _ bm hbm _ => ⟨fun _ => ⟨bm, hbm, rfl, rfl⟩, fun hlost => ?_⟩⟩
    exact absurd hlost.1 hnone

private theorem receiver_calls {names : WellKnownNames} (hw : WellKnown.resolve g names = .ok w)
    (hr : r ∈ b.receivers) : Calls x g w b r where
  printed := binderLines_within hr
  exported := by
    obtain ⟨group, hgroup, hkey, cr, _, _, hcr, hbind⟩ :=
      (bindings?_boundRole hb).2.exists_group hg hr
    obtain ⟨hrole, ids, hids, hsub, hdescribed⟩ := ofFragments?_methods hcr
    obtain ⟨ms, hms, hall⟩ := bindBy?_binds hbind
    rw [hrole] at hall
    obtain ⟨c, hfirst, _⟩ := firstNamed_receiver hg hb hr
    obtain ⟨hname, hns, hanswers⟩ := exported_answers hg hb hw hr hfirst hgroup hkey hcr hbind
    have hq : c.qualifiedName = r.qualifiedName := by simpa using List.find?_some hfirst
    obtain ⟨f, hf, hmodule, hsame, hwritten, hlines⟩ := exists_file (x := x) (hq ▸ hfirst)
    rw [hns] at hmodule
    refine ⟨c, f, hfirst, hname, hf, hmodule, hsame, hwritten, hlines, fun d hd hne hdname => ?_,
      group, hgroup, hkey, ids, ms.map (·.id), hids, (hms.map _).trans hsub, ?_⟩
    · rw [← hns]
      exact sharedFile_of_written hg hb hd hwritten hne (hdname.trans hname.symm)
    · rw [List.forall₂_map_left_iff]
      refine forall₂_imp_of_mem hall fun m hm bm hbm hbinds => ?_
      have hm' := hms.subset hm
      obtain ⟨decl, call, hdecl, hcall, e⟩ := describe?_eq_some (hdescribed m hm')
      have h := hanswers m hm' bm hbm hbinds
      refine ⟨decl, call, _, hdecl, hcall, ?_, ?_, ?_, h, h.shown _⟩
      · rw [hbinds.wireName, e]
      · rw [hbinds.localName, e]
      · rw [e]

end Run

/-- The files of a run, in which every binder stands next to the type it calls. -/
def Called (x : Generator) (g : TypeGraph) (out : Output) : Prop :=
  ∃ w b, prepare x.settings g = .ok w ∧ x.bindings? g w = some b ∧ out.files = sources x b ∧
    ∀ r ∈ b.receivers, Calls x g w b r

theorem listeners_find_members {out : Output} (hg : g.Reachable)
    (h : x.generate? g = some (.ok out)) : Called x g out := by
  obtain ⟨w, b, hw, hb, rfl⟩ := generate?_eq_ok h
  exact ⟨w, b, hw, hb, emit_files x b, fun r hr =>
    receiver_calls hg.coherent hb (prepare_ok hw) hr⟩

/-- An interface with both markers and one that is only a receiver. Both take a stream, with and
without an answer. -/
def relayProgram : TypeGraph :=
  let uploads : List Method :=
    [{ name := "Send", parameters := [⟨"count", ⟨7⟩⟩], returns := ⟨8⟩ },
     { name := "Push", parameters := [⟨"items", ⟨9⟩⟩], returns := ⟨3⟩ },
     { name := "Upload", parameters := [⟨"items", ⟨9⟩⟩], returns := ⟨8⟩ }]
  TypeGraph.declareAll
    [{ head := { kind := .interface, nameSpace := "App", name := "IRelay" }
       attributes := [⟨0⟩, ⟨1⟩], methods := uploads },
     { head := { kind := .interface, nameSpace := "App", name := "ISink" }
       attributes := [⟨1⟩], methods := uploads }] Agreement.streamTypes

theorem relayProgram_reachable : relayProgram.Reachable :=
  Agreement.streamTypes_reachable.declareAll (by decide +kernel)

theorem relayProgram_listeners_find_members :
    relayProgram.Reachable ∧
      ∃ out, ({} : Generator).generate? relayProgram = some (.ok out) ∧
        out.files.length = 2 ∧ Called {} relayProgram out :=
  ⟨relayProgram_reachable, _, rfl, by decide +kernel,
    listeners_find_members relayProgram_reachable rfl⟩

/-- The binder of `IRelay` calls a member that the type does not have: two binders have the
listener, and one type has the member. -/
theorem relayProgram_listener_lost :
    ∃ w b, prepare {} relayProgram = .ok w ∧ ({} : Generator).bindings? relayProgram w = some b ∧
      (index {} b).receivers.map (fun r => (r.name, r.listeners.map (·.member))) =
        [("IRelay", ["send", "push", "upload"]), ("ISink", ["send", "push", "upload"])] ∧
      (files {} b).map (fun f => f.types.map fun t => (t.name, t.members.map (·.signature.name))) =
        [[("IRelay", ["send", "push"]), ("ISink", ["send", "push", "upload"])]] ∧
      (aggregateLines {} b).count
        ⟨2, "const __upload = (...args: [Subject<number>]) => receiver.upload(...args);"⟩ = 2 ∧
      (files {} b).map (fun f => (interfaceLines {} b f).count
        ⟨1, "upload(items: Subject<number>): Promise<number>;"⟩) = [1] :=
  ⟨_, _, rfl, rfl, by decide +kernel, by decide +kernel, by decide +kernel, by decide +kernel⟩

end HubBindings.Client
