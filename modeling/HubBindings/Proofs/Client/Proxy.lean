import HubBindings.Proofs.Client.Contents
import Mathlib.Data.List.Nodup

/-!
Proxies and the types they implement. The interface files are written from the first contract of
each qualified name, the index file from the hubs themselves; a hub is the first contract of its
name, so its proxy has the members of its exported type (`proxies_implement_types`).

A call has the declared name of a method but for its line breaks, which get the form that the
settings ask for, and a type has a second one of its name beside it if the namespaces `global` and
none have interfaces of that name (`mixedNames_implemented_wrongly`).
-/

namespace HubBindings.Client

open Contract Binding Generator Sequencing Text

variable {x : Generator} {g : TypeGraph} {w : WellKnown} {b : Bindings} {hub : BoundContract}

/-! ## Where the lines of a contract stand -/

private theorem infix_flatMap {α : Type} {f : α → List Line} {as : List α} {a : α} (ha : a ∈ as) :
    f a <:+: as.flatMap f :=
  List.infix_of_mem_flatten (List.mem_map_of_mem ha)

private theorem typeLines_within {c : BoundContract} {f : InterfaceFile}
    (hc : c ∈ written (b.hubs ++ b.receivers) f.module) :
    typeLines x.settings.output.emitDocs (shown x c) <:+: interfaceLines x b f := by
  rw [interfaceLines, fileLines]
  exact List.infix_append_of_infix_right
    (List.infix_cons (infix_flatMap (List.mem_map_of_mem hc)))

theorem proxyLines_within (hhub : hub ∈ b.hubs) :
    factoryLines (shown x hub) ++ classLines (shown x hub) <:+: aggregateLines x b := by
  have hlines := infix_flatMap (f := fun hub => factoryLines hub ++ classLines hub)
    (List.mem_map_of_mem (f := shown x) hhub)
  rw [aggregateLines, indexLines]
  exact List.infix_append_of_infix_left (List.infix_append_of_infix_left
    (List.infix_append_of_infix_right hlines))

theorem binderLines_within {r : BoundContract} (hr : r ∈ b.receivers) :
    binderLines (shown x r) <:+: aggregateLines x b := by
  rw [aggregateLines, indexLines]
  exact List.infix_append_of_infix_right (infix_flatMap (List.mem_map_of_mem hr))

/-! ## What a proxy has to do with the type and the declarations -/

/-- A bound method shows a declared method: the style applies to its generated name only, and the
arguments are the declared parameters that are no cancellation tokens. -/
def Shows (g : TypeGraph) (w : WellKnown) (style : NamingStyle) (id : MethodId) (m : BoundMethod) :
    Prop :=
  ∃ decl call, g.method? id = some decl ∧ Call.classify? g w decl = some call ∧
    m.localName = style.apply decl.name ∧ m.wireName = decl.name ∧ m.shape = call.shape ∧
    m.parameters.map (·.name) =
      (decl.parameters.filter fun p => !w.isCancellationToken p.type).map (·.name)

private theorem shows_of_binds {style : NamingStyle} {role : Role} {rules : List Rule}
    {m : ContractMethod} {bm : BoundMethod} (hm : describe? g w style m.id = some m)
    (hb : Binds g w (renderAt? g w rules) role m bm) : Shows g w style m.id bm := by
  obtain ⟨decl, call, hdecl, hcall, e⟩ := describe?_eq_some hm
  refine ⟨decl, call, hdecl, hcall, ?_, ?_, ?_, ?_⟩
  · rw [hb.localName, e]
  · rw [hb.wireName, e]
  · rw [hb.shape, e]
  · rw [← boundParameters_names hb.parameters, wireParameters]
    rw [show m.parameters = decl.parameters by rw [e]]

private theorem comesFrom_shows {role : Role} {group : String × List TypeId} {bc : BoundContract}
    (h : ComesFrom x g w role group bc) :
    ∃ ids kept, g.flattened? group.2 = some ids ∧ kept.Sublist ids ∧
      List.Forall₂ (Shows g w x.settings.methodStyle) kept bc.methods := by
  obtain ⟨c, _, _, hc, hbind⟩ := h
  obtain ⟨hrole, ids, hids, hsub, hmethods⟩ := ofFragments?_methods hc
  obtain ⟨ms, hms, hall⟩ := bindBy?_binds hbind
  refine ⟨ids, ms.map (·.id), hids, (hms.map _).trans hsub, ?_⟩
  rw [List.forall₂_map_left_iff]
  exact forall₂_imp_of_mem hall fun m hm bm _ hb =>
    shows_of_binds (hmethods m (hms.subset hm)) hb

/-- The line breaks of names in a method as files show it. The wire name and the names of arguments
are the declared ones exactly if their line breaks have the form of the file. -/
structure ShownNames (e : LineEnding) (m : BoundMethod) : Prop where
  localName : (m.withBreaks e).localName = Text.withBreaks e m.localName
  wireName : (m.withBreaks e).wireName = Text.withBreaks e m.wireName
  arguments : (m.withBreaks e).parameters.map (·.name) =
    m.parameters.map fun p => Text.withBreaks e p.name
  sameWireName : (m.withBreaks e).wireName = m.wireName ↔ BreaksBy e m.wireName
  sameArguments : (m.withBreaks e).parameters.map (·.name) = m.parameters.map (·.name) ↔
    ∀ p ∈ m.parameters, BreaksBy e p.name

private theorem shownNames (e : LineEnding) (m : BoundMethod) : ShownNames e m where
  localName := rfl
  wireName := rfl
  arguments := by simp [BoundMethod.withBreaks, BoundParameter.withBreaks]
  sameWireName := withBreaks_eq_self_iff
  sameArguments := by
    simp [BoundMethod.withBreaks, BoundParameter.withBreaks, withBreaks_eq_self_iff]

/-- Two namespaces that share a file. -/
def SharedFile (nameSpace nameSpace' : String) : Prop :=
  nameSpace = "" ∧ nameSpace' = "global" ∨ nameSpace = "global" ∧ nameSpace' = ""

/-- The proxy of a hub implements the type that is exported for it: both are written from the same
methods, in the same order. -/
structure Implements (x : Generator) (g : TypeGraph) (w : WellKnown) (b : Bindings)
    (hub : BoundContract) : Prop where
  exported : ∃ f ∈ files x b, f.module = moduleName hub.nameSpace ∧
    (∀ other ∈ files x b, other.module = f.module → other = f) ∧
    hub ∈ written (b.hubs ++ b.receivers) f.module ∧
    typeLines x.settings.output.emitDocs (shown x hub) <:+: interfaceLines x b f
  /-- The file has another type of that name if a contract has the name of the hub in a namespace
  that shares the file, or if its name differs from that of the hub in line breaks only. -/
  alone_iff : (∀ c ∈ written (b.hubs ++ b.receivers) (moduleName hub.nameSpace),
      (shown x c).name = (shown x hub).name → c = hub) ↔
    ∀ c ∈ written (b.hubs ++ b.receivers) (moduleName hub.nameSpace),
      ¬ (c.name = hub.name ∧ SharedFile c.nameSpace hub.nameSpace) ∧
        ¬ (c.name ≠ hub.name ∧ (shown x c).name = (shown x hub).name)
  printed : classLines (shown x hub) <:+: aggregateLines x b
  declared : ∃ group ∈ candidates g w (scope x.settings) .hub, group.1 = hub.qualifiedName ∧
    ∃ ids kept, g.flattened? group.2 = some ids ∧ kept.Sublist ids ∧
      List.Forall₂ (Shows g w x.settings.methodStyle) kept hub.methods
  names : ∀ m ∈ hub.methods, ShownNames x.settings.output.lineEnding m

/-! ## The exported type of a hub -/

section Exported

variable (hg : g.Coherent) (hb : x.bindings? g w = some b)
include hg hb

/-- A hub is the first contract of its name. -/
theorem firstNamed_hub (hhub : hub ∈ b.hubs) :
    firstNamed (b.hubs ++ b.receivers) hub.qualifiedName = some hub := by
  rw [firstNamed_append, firstNamed_of_nodup ((bindings?_boundRole hb).1.nodup hg) hhub]
  rfl

/-- Contracts of one name in one file are the same, or live in the namespaces `global` and none. -/
theorem nameSpaces_of_same_file {c d : BoundContract} (hc : c ∈ b.hubs ++ b.receivers)
    (hd : d ∈ b.hubs ++ b.receivers) (hname : c.name = d.name)
    (hmodule : moduleName c.nameSpace = moduleName d.nameSpace)
    (hq : c.qualifiedName ≠ d.qualifiedName) : SharedFile c.nameSpace d.nameSpace := by
  have hdiff : c.nameSpace ≠ d.nameSpace := fun heq =>
    hq (qualifiedName_of_names hg hb hc hd hname heq)
  unfold moduleName at hmodule
  split at hmodule <;> split at hmodule
  · rename_i h₁ h₂
    exact absurd (h₁.trans h₂.symm) hdiff
  · rename_i h₁ _
    exact .inl ⟨h₁, hmodule.symm⟩
  · rename_i _ h₂
    exact .inr ⟨hmodule, h₂⟩
  · exact absurd hmodule hdiff

/-- Two contracts of a file have one name only in namespaces that share the file. -/
theorem sharedFile_of_written {c d : BoundContract} {module : String}
    (hd : d ∈ written (b.hubs ++ b.receivers) module)
    (hc : c ∈ written (b.hubs ++ b.receivers) module) (hne : d ≠ c) (hname : d.name = c.name) :
    SharedFile d.nameSpace c.nameSpace := by
  have hq : d.qualifiedName ≠ c.qualifiedName := fun e =>
    hne (List.inj_on_of_nodup_map (written_names_nodup _ module) hd hc e)
  exact nameSpaces_of_same_file hg hb (mem_of_mem_written hd) (mem_of_mem_written hc) hname
    ((mem_written.mp hd).2.trans (mem_written.mp hc).2.symm) hq

/-- A contract has the only type of its name in its file, unless another one of the file has its
name in a namespace that shares the file, or has its name but for line breaks. -/
theorem alone_in_file_iff {c : BoundContract} {module : String}
    (hc : c ∈ written (b.hubs ++ b.receivers) module) :
    (∀ d ∈ written (b.hubs ++ b.receivers) module, (shown x d).name = (shown x c).name → d = c) ↔
      ∀ d ∈ written (b.hubs ++ b.receivers) module,
        ¬ (d.name = c.name ∧ SharedFile d.nameSpace c.nameSpace) ∧
          ¬ (d.name ≠ c.name ∧ (shown x d).name = (shown x c).name) := by
  constructor
  · intro halone d hd
    constructor
    · rintro ⟨hname, hshared⟩
      cases halone d hd (congrArg (withBreaks _) hname)
      rcases hshared with ⟨hempty, hglobal⟩ | ⟨hglobal, hempty⟩ <;>
        exact absurd (hempty.symm.trans hglobal) (by decide)
    · rintro ⟨hname, hshown⟩
      exact hname (congrArg _ (halone d hd hshown))
  · intro hnone d hd hshown
    obtain ⟨hshared, hbreaks⟩ := hnone d hd
    have hname : d.name = c.name := by
      by_contra hname
      exact hbreaks ⟨hname, hshown⟩
    by_contra hne
    exact hshared ⟨hname, sharedFile_of_written hg hb hd hc hne hname⟩

omit hg hb in
/-- The first contract of a name is written in the file of its namespace, and there is one such
file. -/
theorem exists_file {c : BoundContract}
    (hfirst : firstNamed (b.hubs ++ b.receivers) c.qualifiedName = some c) :
    ∃ f ∈ files x b, f.module = moduleName c.nameSpace ∧
      (∀ other ∈ files x b, other.module = f.module → other = f) ∧
      c ∈ written (b.hubs ++ b.receivers) f.module ∧
      typeLines x.settings.output.emitDocs (shown x c) <:+: interfaceLines x b f := by
  have hwritten : c ∈ written (b.hubs ++ b.receivers) (moduleName c.nameSpace) :=
    mem_written.mpr ⟨hfirst, rfl⟩
  have hfile : InterfaceFile.ofContracts x.settings.output.transportModule (moduleName c.nameSpace)
      (written (b.hubs ++ b.receivers) (moduleName c.nameSpace)) ∈ files x b :=
    mem_all.mpr ⟨moduleName c.nameSpace, List.ne_nil_of_mem hwritten, rfl⟩
  exact ⟨_, hfile, rfl, fun other ho h => eq_of_module_eq hfile ho h, hwritten,
    typeLines_within hwritten⟩

private theorem proxy_implements (hhub : hub ∈ b.hubs) : Implements x g w b hub where
  exported := exists_file (firstNamed_hub hg hb hhub)
  alone_iff := alone_in_file_iff hg hb (mem_written.mpr ⟨firstNamed_hub hg hb hhub, rfl⟩)
  printed := (List.suffix_append _ _).isInfix.trans (proxyLines_within hhub)
  declared := by
    obtain ⟨group, hgroup, hkey, hcomes⟩ := (bindings?_boundRole hb).1.exists_group hg hhub
    exact ⟨group, hgroup, hkey, comesFrom_shows hcomes⟩
  names m _ := shownNames _ m

end Exported

/-- The files of a run, in which every proxy implements the type that is exported for its hub. -/
def Implemented (x : Generator) (g : TypeGraph) (out : Output) : Prop :=
  ∃ w b, prepare x.settings g = .ok w ∧ x.bindings? g w = some b ∧ out.files = sources x b ∧
    ∀ hub ∈ b.hubs, Implements x g w b hub

theorem proxies_implement_types {out : Output} (hg : g.Reachable)
    (h : x.generate? g = some (.ok out)) : Implemented x g out := by
  obtain ⟨w, b, hw, hb, rfl⟩ := generate?_eq_ok h
  exact ⟨w, b, hw, hb, emit_files x b, fun hub hhub => proxy_implements hg.coherent hb hhub⟩

/-- A program with two hubs, one of them also a receiver. Methods have cancellation tokens between
other parameters, and names that the style changes. -/
def roomProgram : TypeGraph :=
  TypeGraph.declareAll
    [{ head := { kind := .classType, nameSpace := "TypedSignalR.Client", name := "HubAttribute" } },
     { head :=
        { kind := .classType, nameSpace := "TypedSignalR.Client", name := "ReceiverAttribute" } },
     { head :=
        { kind := .classType, nameSpace := "Tapper", name := "TranspilationSourceAttribute" } },
     { head := { kind := .classType, nameSpace := "System.Threading.Tasks", name := "Task" } },
     { head :=
        { kind := .structType, nameSpace := "System.Threading", name := "CancellationToken" } },
     { head := { kind := .structType, nameSpace := "System", name := "Int32" } },
     { head := { kind := .interface, nameSpace := "App", name := "IRoom" }
       attributes := [⟨0⟩, ⟨1⟩]
       methods :=
        [{ name := "JoinAs"
           parameters := [⟨"seat", ⟨5⟩⟩, ⟨"stop", ⟨4⟩⟩, ⟨"row", ⟨5⟩⟩], returns := ⟨3⟩ },
         { name := "Leave", parameters := [⟨"stop", ⟨4⟩⟩], returns := ⟨3⟩ }] },
     { head := { kind := .interface, nameSpace := "App", name := "ILobby" }
       attributes := [⟨0⟩], methods := [{ name := "Enter", returns := ⟨3⟩ }] }] {}

theorem roomProgram_reachable : roomProgram.Reachable :=
  .declareAll .empty (by decide +kernel)

theorem roomProgram_proxies_implement_types :
    roomProgram.Reachable ∧
      ∃ out, ({} : Generator).generate? roomProgram = some (.ok out) ∧
        out.files.length = 2 ∧ out.diagnostics = [] ∧ Implemented {} roomProgram out :=
  ⟨roomProgram_reachable, _, rfl, by decide +kernel, by decide +kernel,
    proxies_implement_types roomProgram_reachable rfl⟩

/-- A hub with a line break in the name of a method, and hubs of one name in the namespaces that
share a file. -/
def mixedNames : TypeGraph :=
  TypeGraph.declareAll
    [{ head := { kind := .interface, nameSpace := "App", name := "IChat" }
       attributes := [⟨0⟩], methods := [{ name := "Say\rNow", returns := ⟨3⟩ }] },
     { head := { kind := .interface, nameSpace := "", name := "IHub" }
       attributes := [⟨0⟩], methods := [{ name := "Join", returns := ⟨3⟩ }] },
     { head := { kind := .interface, nameSpace := "global", name := "IHub" }
       attributes := [⟨0⟩], methods := [{ name := "Leave", returns := ⟨3⟩ }] }] roomProgram

/-- The call of a method has another name than the method, and one file exports two types of one
name with different members. Nothing is reported. -/
theorem mixedNames_implemented_wrongly :
    mixedNames.Reachable ∧
      ∃ out w b, ({} : Generator).generate? mixedNames = some (.ok out) ∧ out.diagnostics = [] ∧
        prepare {} mixedNames = .ok w ∧ ({} : Generator).bindings? mixedNames w = some b ∧
        out.files = sources {} b ∧
        b.hubs.map (fun hub => hub.methods.map (·.wireName)) =
          [["JoinAs", "Leave"], ["Enter"], ["Say\rNow"], ["Join"], ["Leave"]] ∧
        ⟨2, "return await this.connection.invoke(\"Say\nNow\");"⟩ ∈ aggregateLines {} b ∧
        (written (b.hubs ++ b.receivers) "global").map
            (fun c => (c.name, c.methods.map (·.localName))) =
          [("IHub", ["join"]), ("IHub", ["leave"])] :=
  ⟨roomProgram_reachable.declareAll (by decide +kernel), _, _, _, rfl, by decide +kernel, rfl, rfl,
    emit_files _ _, by decide +kernel, by decide +kernel, by decide +kernel⟩

end HubBindings.Client
