import HubBindings.Proofs.CallShape
import HubBindings.Proofs.Contract
import HubBindings.Proofs.Rendering.Wrapped

/-!
The shape of a call agrees with the texts of its types. The shape, what the call carries, what the
role admits and the texts come from four functions with unwrapping rules of their own; on every
method that is bound by the built-in rules they agree (`hub_agrees`, `receiver_agrees`).
-/

namespace HubBindings.Agreement

open Binding Contract WellKnown Sequencing

variable {g : TypeGraph} {w : WellKnown} {style : NamingStyle} {id : MethodId}
  {m : ContractMethod} {b : BoundMethod}

/-- The text of a type inside of another. -/
def NestedText (g : TypeGraph) (w : WellKnown) (ty : TypeId) (text : String) : Prop :=
  Renders (renderAt? g w Rule.builtin) .nested ty text

/-- The text of a hub's result, by the shape of the call and what it carries. -/
def ResultAgrees (g : TypeGraph) (w : WellKnown) (call : Call) (text : String) : Prop :=
  match call.shape, call.payload with
  | .serverStream, some a => ∃ t, NestedText g w a t ∧ text = "IStreamResult<" ++ t ++ ">"
  | .serverStream, none => False
  | .unary, some a => ∃ t, NestedText g w a t ∧ text = "Promise<" ++ t ++ ">"
  | .unary, none => text = "Promise<void>"
  | .clientStream, _ => text = "Promise<void>"

/-- The first parameter that is a stream is bound in its place, as the stream that the client
feeds. -/
def StreamAgrees (g : TypeGraph) (w : WellKnown) (m : ContractMethod) (b : BoundMethod) : Prop :=
  ∃ before p after bs q cs a t,
    m.parameters = before ++ p :: after ∧
    (∀ x ∈ before, w.isStream? g x.type = some false) ∧ w.isStream? g p.type = some true ∧
    b.parameters = bs ++ q :: cs ∧
    bs.map (·.name) = (before.filter fun x => !w.isCancellationToken x.type).map (·.name) ∧
    q.name = p.name ∧ m.call.payload = some a ∧ NestedText g w a t ∧
    q.text = "Subject<" ++ t ++ ">"

structure HubAgrees (g : TypeGraph) (w : WellKnown) (m : ContractMethod) (b : BoundMethod) :
    Prop where
  localName : b.localName = m.localName
  wireName : b.wireName = m.wireName
  shape : b.shape = m.call.shape
  result : ResultAgrees g w m.call b.returnText
  stream : m.call.shape = .clientStream → StreamAgrees g w m b

structure ReceiverAgrees (m : ContractMethod) (b : BoundMethod) : Prop where
  localName : b.localName = m.localName
  wireName : b.wireName = m.wireName
  result : ∃ rest, b.returnText = "Promise<" ++ rest

/-! ## Results -/

private theorem renders_task {p : Position} {ty : TypeId} {text : String} (ht : w.isTask ty = true)
    (h : Renders (renderAt? g w Rule.builtin) p ty text) : text = "Promise<void>" := by
  obtain ⟨room, c', _, hrun⟩ := h.plan (find?_builtin_task ht) rfl
  rw [Plan.run_text] at hrun
  cases hrun
  rfl

private theorem renders_taskOf {p : Position} {ty a : TypeId} {text : String} (hw : Separated g w)
    (ht : TaskOf g w ty a) (hs : w.isStream? g a = some false)
    (h : Renders (renderAt? g w Rule.builtin) p ty text) :
    ∃ t, NestedText g w a t ∧ text = "Promise<" ++ t ++ ">" :=
  h.promise (find?_builtin_of_taskOf hw ht) ht.firstArgument? fun _ => hs

private theorem renders_returned_stream {ty : TypeId} {text : String} (hw : Separated g w)
    (hs : Call.returnsStream? g w ty = some true)
    (h : Renders (renderAt? g w Rule.builtin) .hubReturn ty text) :
    ∃ a t, Call.featured? g w ty = some a ∧ NestedText g w a t ∧
      text = "IStreamResult<" ++ t ++ ">" := by
  rcases Call.returnsStream?_eq_true hs with ⟨a, ha⟩ | ⟨inner, a, hinner, ha⟩
  · obtain ⟨t, ht, e⟩ := h.stream (find?_builtin_of_streamOf hw ha) ha.firstArgument?
    exact ⟨a, t, Call.featured?_of_streamOf ha, ht, e⟩
  · obtain ⟨t, ht, e⟩ := h.taskOfStream (find?_builtin_of_taskOf hw hinner) hinner.firstArgument?
      (isStream?_eq_true_iff.mpr ⟨a, ha⟩) ha.firstArgument?
    exact ⟨a, t, Call.featured?_of_taskOfStream hw hinner ha, ht, e⟩

/-- A hub method without streams returns a task of what it carries. -/
theorem renders_unary {ty : TypeId} {text : String} (hw : Separated g w)
    (hs : Call.returnsStream? g w ty = some false) (ht : w.isTask ty = false)
    (hadmitted : Call.hubViolation? g w .unary ty = some none)
    (h : Renders (renderAt? g w Rule.builtin) .hubReturn ty text) :
    ∃ a t, Call.featured? g w ty = some a ∧ NestedText g w a t ∧ text = "Promise<" ++ t ++ ">" := by
  rcases Call.hubViolation?_eq_none hadmitted with htask | hgeneric
  · rw [ht] at htask
    cases htask
  · obtain ⟨a, ha⟩ := isGenericTask?_eq_true_iff.mp hgeneric
    have hstream : w.isStream? g a = some false :=
      (Call.isTaskOfStream?_of_taskOf ha).symm.trans (Call.returnsStream?_eq_false hs)
    obtain ⟨t, ht, e⟩ := renders_taskOf hw ha hstream h
    exact ⟨a, t, Call.featured?_of_taskOf hw ha hstream, ht, e⟩

/-! ## Methods -/

private theorem hub_result_agrees (hw : Separated g w) (hm : describe? g w style id = some m)
    (hb : Binds g w (renderAt? g w Rule.builtin) .hub m b) :
    ResultAgrees g w m.call b.returnText := by
  obtain ⟨decl, call, _, hcall, rfl⟩ := describe?_eq_some hm
  have hadmitted : Call.hubViolation? g w call.shape decl.returns = some none := hb.admitted
  obtain ⟨stream, _, hcases⟩ := Call.classify?_cases hcall
  rcases hcases with ⟨hs, a, ha, rfl⟩ | ⟨_, _, _, _, _, rfl⟩ | ⟨_, _, ht, rfl⟩ |
    ⟨hs, _, ht, a, ha, rfl⟩
  · obtain ⟨a', t, ha', ht, e⟩ := renders_returned_stream hw hs hb.returnText
    rw [ha] at ha'
    cases ha'
    exact ⟨t, ht, e⟩
  · exact renders_task (Call.hubViolation?_eq_none hadmitted) hb.returnText
  · exact renders_task ht hb.returnText
  · obtain ⟨a', t, ha', ht, e⟩ := renders_unary hw hs ht hadmitted hb.returnText
    rw [ha] at ha'
    cases ha'
    exact ⟨t, ht, e⟩

private theorem hub_stream_agrees (hw : Separated g w) (hm : describe? g w style id = some m)
    (hb : Binds g w (renderAt? g w Rule.builtin) .hub m b) (hshape : m.call.shape = .clientStream) :
    StreamAgrees g w m b := by
  obtain ⟨decl, call, _, hcall, rfl⟩ := describe?_eq_some hm
  obtain ⟨stream, hfind, hcases⟩ := Call.classify?_cases hcall
  rcases hcases with ⟨_, _, _, rfl⟩ | ⟨_, p, a, rfl, ha, rfl⟩ | ⟨_, _, _, rfl⟩ |
    ⟨_, _, _, _, _, rfl⟩
  · cases hshape
  · obtain ⟨before, after, hps, hbefore, hp⟩ := findM?_eq_some hfind
    obtain ⟨a', ha'⟩ := isStream?_eq_true_iff.mp hp
    have htoken : w.isCancellationToken p.type = false := by
      obtain ⟨d, as, _, hf⟩ := ha'
      exact hw.not_isCancellationToken hf
    have hwire : (decl.parameters.filter fun x => !w.isCancellationToken x.type) =
        (before.filter fun x => !w.isCancellationToken x.type) ++
          p :: after.filter fun x => !w.isCancellationToken x.type := by
      rw [hps, List.filter_append, List.filter_cons_of_pos (by simp [htoken])]
    have hparameters : List.Forall₂ (BindsParameter g (renderAt? g w Rule.builtin))
        (decl.parameters.filter fun x => !w.isCancellationToken x.type) b.parameters :=
      hb.parameters
    rw [hwire] at hparameters
    obtain ⟨bs, q, cs, hq, hbs, hpq, _⟩ := forall₂_split hparameters
    obtain ⟨t, ht, e⟩ := hpq.text.stream (find?_builtin_of_streamOf hw ha') ha'.firstArgument?
    rw [Call.featured?_of_streamOf ha'] at ha
    cases ha
    exact ⟨before, p, after, bs, q, cs, a, t, hps, hbefore, hp, hq,
      (boundParameters_names hbs).symm, hpq.name, rfl, ht, e⟩
  · cases hshape
  · cases hshape

theorem hub_agrees (hw : Separated g w) (hm : describe? g w style id = some m)
    (hb : Binds g w (renderAt? g w Rule.builtin) .hub m b) : HubAgrees g w m b where
  localName := hb.localName
  wireName := hb.wireName
  shape := hb.shape
  result := hub_result_agrees hw hm hb
  stream := hub_stream_agrees hw hm hb

theorem receiver_agrees (hw : Separated g w)
    (hb : Binds g w (renderAt? g w Rule.builtin) .receiver m b) :
    ReceiverAgrees m b := by
  refine ⟨hb.localName, hb.wireName, ?_⟩
  rcases Call.receiverViolation?_eq_none hb.admitted with ht | ⟨hgeneric, hstream⟩
  · exact ⟨"void>", (renders_task ht hb.returnText).trans rfl⟩
  · obtain ⟨a, ha⟩ := isGenericTask?_eq_true_iff.mp hgeneric
    rw [Call.isTaskOfStream?_of_taskOf ha] at hstream
    obtain ⟨t, _, e⟩ := renders_taskOf hw ha hstream hb.returnText
    exact ⟨t ++ ">", e.trans (String.append_assoc ..)⟩

/-! ## Contracts of a run -/

private theorem kept_agree {c : Contract} {bc : BoundContract} {ds : List Diagnostic}
    {R : ContractMethod → BoundMethod → Prop}
    (hR : ∀ m ∈ c.methods, ∀ b, Binds g w (renderAt? g w Rule.builtin) c.role m b → R m b)
    (h : bind? g w Rule.builtin c = some (bc, ds)) :
    ∃ ms, ms.Sublist c.methods ∧ List.Forall₂ R ms bc.methods := by
  obtain ⟨ms, hsub, hall⟩ := bindBy?_binds h
  exact ⟨ms, hsub, forall₂_imp_of_mem hall fun m hm bm _ => hR m (hsub.subset hm) bm⟩

theorem shapes_agree_with_texts (hg : g.Reachable) (hw : WellKnown.resolve g {} = .ok w) :
    (∀ scope style found, Discovery.run? g w scope style = some found →
      (∀ c ∈ found.hubs, ∀ bc ds, bind? g w Rule.builtin c = some (bc, ds) →
        ∃ ms, ms.Sublist c.methods ∧ List.Forall₂ (HubAgrees g w) ms bc.methods) ∧
      ∀ c ∈ found.receivers, ∀ bc ds, bind? g w Rule.builtin c = some (bc, ds) →
        ∃ ms, ms.Sublist c.methods ∧ List.Forall₂ ReceiverAgrees ms bc.methods) ∧
    ∀ p ty r c, (renderType g w Rule.builtin ty).run { position := p } = some (r, c) →
      (.streamResult ∈ c.references.wrappers ↔
        p = .hubReturn ∧
          (w.isStream? g ty = some true ∨ Call.isTaskOfStream? g w ty = some true)) := by
  have hsep : Separated g w := resolve_separated hg.coherent ⟨by decide, by decide⟩ hw
  refine ⟨fun scope style found hrun => ?_, fun p ty r c h => streamResult_noted_iff hsep h⟩
  obtain ⟨_, _, hhubs, hreceivers, _⟩ := run?_eq_some hrun
  constructor
  · intro c hc bc ds hbind
    obtain ⟨hrole, hmethods⟩ := discoverRole?_described hhubs hc
    exact kept_agree (fun m hm b hb => hub_agrees hsep (hmethods m hm) (hrole ▸ hb)) hbind
  · intro c hc bc ds hbind
    obtain ⟨hrole, _⟩ := discoverRole?_described hreceivers hc
    exact kept_agree (fun m _ b hb => receiver_agrees hsep (hrole ▸ hb)) hbind

def runtimeTypes : TypeGraph :=
  TypeGraph.declareAll
    [{ head := { kind := .classType, nameSpace := "TypedSignalR.Client", name := "HubAttribute" } },
     { head :=
        { kind := .classType, nameSpace := "TypedSignalR.Client", name := "ReceiverAttribute" } },
     { head :=
        { kind := .classType, nameSpace := "Tapper", name := "TranspilationSourceAttribute" } },
     { head := { kind := .classType, nameSpace := "System.Threading.Tasks", name := "Task" } },
     { head :=
        { kind := .classType, nameSpace := "System.Threading.Tasks", name := "Task", arity := 1 } },
     { head :=
        { kind := .interface, nameSpace := "System.Collections.Generic"
          name := "IAsyncEnumerable", arity := 1 } },
     { head :=
        { kind := .classType, nameSpace := "System.Threading.Channels"
          name := "ChannelReader", arity := 1 } },
     { head := { kind := .structType, nameSpace := "System", name := "Int32" } }] {}

/-- A task of a number, a stream of numbers, a channel of numbers and a task of it. -/
def streamTypes : TypeGraph :=
  (((runtimeTypes.withConstruction ⟨4⟩ [⟨7⟩]).withConstruction ⟨5⟩ [⟨7⟩]).withConstruction ⟨6⟩
    [⟨7⟩]).withConstruction ⟨4⟩ [⟨10⟩]

/-- A hub with a method of each shape, and with a channel as a result, which no hub may have. -/
def streamingProgram : TypeGraph :=
  TypeGraph.declareAll
    [{ head := { kind := .interface, nameSpace := "App", name := "IFeed" }
       attributes := [⟨0⟩]
       methods :=
        [{ name := "Ping", returns := ⟨3⟩ },
         { name := "Count", returns := ⟨8⟩ },
         { name := "Watch", returns := ⟨9⟩ },
         { name := "Open", returns := ⟨11⟩ },
         { name := "Upload", parameters := [⟨"size", ⟨7⟩⟩, ⟨"items", ⟨9⟩⟩], returns := ⟨3⟩ },
         { name := "Pull", returns := ⟨10⟩ }] }] streamTypes

theorem streamTypes_reachable : streamTypes.Reachable := by
  have h₀ : runtimeTypes.Reachable := .declareAll .empty (by decide +kernel)
  have h₁ := h₀.withConstruction ⟨4⟩ [⟨7⟩] (by decide +kernel) (by decide +kernel) rfl
  have h₂ := h₁.withConstruction ⟨5⟩ [⟨7⟩] (by decide +kernel) (by decide +kernel) rfl
  have h₃ := h₂.withConstruction ⟨6⟩ [⟨7⟩] (by decide +kernel) (by decide +kernel) rfl
  exact h₃.withConstruction ⟨4⟩ [⟨10⟩] (by decide +kernel) (by decide +kernel) rfl

private theorem streamingProgram_reachable : streamingProgram.Reachable :=
  streamTypes_reachable.declareAll (by decide +kernel)

private theorem streamingProgram_bound :
    ∃ w found c bc ds,
      WellKnown.resolve streamingProgram {} = .ok w ∧
      Discovery.run? streamingProgram w .source .camelCase = some found ∧ found.hubs = [c] ∧
      bind? streamingProgram w Rule.builtin c = some (bc, ds) ∧
      bc.methods.map (fun b => (b.wireName, b.shape, b.returnText)) =
        [("Ping", .unary, "Promise<void>"),
         ("Count", .unary, "Promise<number>"),
         ("Watch", .serverStream, "IStreamResult<number>"),
         ("Open", .serverStream, "IStreamResult<number>"),
         ("Upload", .clientStream, "Promise<void>")] :=
  ⟨_, _, _, _, _, rfl, rfl, rfl, rfl, by decide +kernel⟩

theorem streamingProgram_shapes_agree :
    streamingProgram.Reachable ∧ ∃ w found c bc ds,
      WellKnown.resolve streamingProgram {} = .ok w ∧
      Discovery.run? streamingProgram w .source .camelCase = some found ∧ found.hubs = [c] ∧
      bind? streamingProgram w Rule.builtin c = some (bc, ds) ∧ bc.methods.length = 5 ∧
      ∃ ms, ms.Sublist c.methods ∧ List.Forall₂ (HubAgrees streamingProgram w) ms bc.methods := by
  obtain ⟨w, found, c, bc, ds, hw, hrun, hhubs, hbind, hmethods⟩ := streamingProgram_bound
  refine ⟨streamingProgram_reachable, w, found, c, bc, ds, hw, hrun, hhubs, hbind, ?_, ?_⟩
  · simpa using congrArg List.length hmethods
  · have hagree := (shapes_agree_with_texts streamingProgram_reachable hw).1 _ _ _ hrun
    exact hagree.1 c (hhubs ▸ List.mem_cons_self) bc ds hbind

end HubBindings.Agreement
