import HubBindings.Proofs.Client.Proxy

/-!
Instance members of a proxy class: the field `connection` that its constructor introduces, and one
accessor for each method.

* `apply_eq_connection_iff`: the declared names that a style turns into the name of the field;
* `denoted?_self_iff`: each member of a class can be referred to exactly if all names are different;
* `proxy_members_distinct`: in every run the declared names of accessors are different, and the name
  of the field is different from them unless a method has one of the names above;
* `phoneProgram_members_clash`: such a method is not reported, and no accessor has a connection.
-/

namespace HubBindings

/-! ## Names that become the name of the field -/

namespace Text

/-- The code point that is mapped to `k`, if the run covers it. -/
def CaseRun.source (r : CaseRun) (k : Nat) : Nat := (k - r.offset).toNat

/-- The code points that a list of runs may map to `k`. -/
def sources (runs : List CaseRun) (k : Nat) : List Nat :=
  (runs.filter fun r => r.covers (r.source k)).map (·.source k)
    ++ if runs.any (·.covers k) then [] else [k]

private theorem mem_sources {runs : List CaseRun} {n k : Nat} (hk : k ≠ 0)
    (h : shiftIn runs n = k) :
    n ∈ sources runs k := by
  rw [sources, List.mem_append]
  cases hfind : runs.find? (·.covers n) with
  | some r =>
    have hshift : (n + r.offset).toNat = k := by simpa only [shiftIn, hfind] using h
    have hn : r.source k = n := by
      rw [CaseRun.source]
      omega
    have hcovers : r.covers n := by simpa using List.find?_some hfind
    refine .inl (List.mem_map.mpr ⟨r, ?_, hn⟩)
    exact List.mem_filter.mpr ⟨List.mem_of_find?_eq_some hfind, hn.symm ▸ hcovers⟩
  | none =>
    have hshift : n = k := by simpa only [shiftIn, hfind] using h
    have hkept : runs.any (·.covers k) = false := by
      rw [List.any_eq_false, ← hshift]
      exact List.find?_eq_none.mp hfind
    simp [hkept, hshift]

private theorem eq_toNat_of_ofNat {n : Nat} {c : Char} (h : Char.ofNat n = c) (hc : c.toNat ≠ 0) :
    n = c.toNat := by
  by_cases hvalid : n.isValidChar
  · rw [Char.ofNat, dif_pos hvalid] at h
    rw [← h]
    rfl
  · rw [Char.ofNat, dif_neg hvalid] at h
    rw [← h] at hc
    exact absurd rfl hc

/-- If a mapped character begins a text, the character is a source of the text's first one. -/
theorem source_of_mapCase {expansions : List (Nat × List Nat)} {runs : List CaseRun}
    {c first : Char} {rest tail : List Char} (hfirst : first.toNat ≠ 0)
    (hexpansions : ∀ e ∈ expansions, (e.2.map Char.ofNat).head?.any (· != first))
    (h : mapCase expansions runs c ++ rest = first :: tail) :
    c.toNat ∈ sources runs first.toNat ∧ rest = tail := by
  cases hlookup : expansions.lookup c.toNat with
  | some ns =>
    rw [mapCase, hlookup] at h
    have hhead := hexpansions _ (Ascending.mem_of_lookup hlookup)
    cases ns with
    | nil => simp at hhead
    | cons n ns =>
      simp only [List.map_cons, List.cons_append, List.cons.injEq] at h
      simp [h.1] at hhead
  | none =>
    rw [mapCase, hlookup] at h
    simp only [List.singleton_append, List.cons.injEq] at h
    exact ⟨mem_sources hfirst (eq_toNat_of_ofNat h.1 hfirst), h.2⟩

end Text

namespace NamingStyle

/-- The declared names that a style turns into `connection`. -/
def connectionNames : NamingStyle → List String
  | asDeclared => ["connection"]
  | camelCase => ["connection", "Connection"]
  | pascalCase => []

private theorem letters_of_apply {style : NamingStyle} {name : String}
    (h : style.apply name = "connection") :
    ∃ c rest, name.toList = c :: rest ∧ style.mapFirst c ++ rest = 'c' :: "onnection".toList := by
  rw [apply] at h
  split at h
  · exact absurd h (by decide)
  · rename_i c rest hname
    exact ⟨c, rest, hname, String.ofList_injective (h.trans rfl)⟩

private theorem camelCase_sources {name : String} (h : camelCase.apply name = "connection") :
    name = "connection" ∨ name = "Connection" := by
  obtain ⟨c, rest, hname, hletters⟩ := letters_of_apply h
  obtain ⟨hc, rfl⟩ := Text.source_of_mapCase (by decide) (by decide) hletters
  have hsources : Text.sources Text.lowerRuns 'c'.toNat = ['C'.toNat, 'c'.toNat] := by
    decide +kernel
  rw [hsources, List.mem_pair, Char.toNat_inj, Char.toNat_inj] at hc
  rw [← String.toList_inj, ← String.toList_inj, hname]
  rcases hc with rfl | rfl
  · exact .inr rfl
  · exact .inl rfl

/-- Nothing becomes a small `c` in upper case. -/
theorem pascalCase_apply_ne (name : String) : pascalCase.apply name ≠ "connection" := by
  rintro h
  obtain ⟨c, rest, _, hletters⟩ := letters_of_apply h
  obtain ⟨hc, _⟩ := Text.source_of_mapCase (by decide) (by decide +kernel) hletters
  have hsources : Text.sources Text.upperRuns 'c'.toNat = [] := by decide +kernel
  rw [hsources] at hc
  exact absurd hc List.not_mem_nil

theorem apply_eq_connection_iff (style : NamingStyle) (name : String) :
    style.apply name = "connection" ↔ name ∈ style.connectionNames := by
  cases style with
  | asDeclared => rw [asDeclared_apply, connectionNames, List.mem_singleton]
  | camelCase =>
    rw [connectionNames, List.mem_pair]
    refine ⟨camelCase_sources, ?_⟩
    rintro (rfl | rfl)
    · decide +kernel
    · decide +kernel
  | pascalCase => simp [connectionNames, pascalCase_apply_ne]

end NamingStyle

namespace Client

open Generator Text

variable {x : Generator} {g : TypeGraph} {w : WellKnown} {b : Bindings} {hub : BoundContract}

/-! ## Members -/

/-- What a connection is asked for: one of its functions and the arguments. -/
structure Message where
  function : String
  arguments : List String
  deriving DecidableEq, Repr

/-- The function of a connection for a shape. -/
def Message.functionFor : CallShape → String
  | .unary => "invoke"
  | .serverStream => "stream"
  | .clientStream => "send"

/-- The message for a method. -/
def Message.ofMethod (m : BoundMethod) : Message :=
  { function := functionFor m.shape
    arguments := ("\"" ++ m.wireName ++ "\"") :: m.parameters.map (·.name) }

/-- The expression in the body of an accessor: a message to what a member of `this` stands for. -/
structure Request where
  awaited : Bool
  object : String
  message : Message
  deriving DecidableEq, Repr

def Request.ofMethod (m : BoundMethod) : Request :=
  { awaited := m.shape != .serverStream, object := "connection", message := .ofMethod m }

/-- The text of the function that is called. -/
def Request.callee (q : Request) : String :=
  (if q.awaited then "await " else "") ++ "this." ++ q.object ++ "." ++ q.message.function

def Request.text (q : Request) : String :=
  q.callee ++ "(" ++ ", ".intercalate q.message.arguments ++ ")"

theorem Request.callee_ofMethod (m : BoundMethod) :
    (Request.ofMethod m).callee = (transport m.shape).2 := by
  have hshape : ∀ shape : CallShape, (if shape != .serverStream then "await " else "") ++ "this."
      ++ "connection" ++ "." ++ Message.functionFor shape = (transport shape).2 := by
    rintro (_ | _ | _) <;> decide
  exact hshape m.shape

theorem Request.modifier_ofMethod (m : BoundMethod) :
    (if (Request.ofMethod m).awaited then "async " else "") = (transport m.shape).1 := by
  have hshape : ∀ shape : CallShape, (if shape != .serverStream then "async " else "") =
      (transport shape).1 := by
    rintro (_ | _ | _) <;> rfl
  exact hshape m.shape

/-- An instance member of a proxy class. -/
inductive InstanceMember where
  /-- The field for the connection. -/
  | field
  | accessor (m : BoundMethod)

namespace InstanceMember

def name : InstanceMember → String
  | field => "connection"
  | accessor m => m.localName

/-- The lines of a member. The field is declared by the parameter of the constructor. -/
def lines : InstanceMember → List Line
  | field =>
    [.empty, ⟨1, "public constructor(private connection: HubConnection) \x7b"⟩, ⟨1, "\x7d"⟩]
  | accessor m =>
    [.empty,
     ⟨1, "public readonly " ++ m.localName ++ " = "
        ++ (if (Request.ofMethod m).awaited then "async " else "") ++ "(" ++ parameterText m
        ++ "): " ++ m.returnText ++ " => \x7b"⟩,
     ⟨2, "return " ++ (Request.ofMethod m).text ++ ";"⟩,
     ⟨1, "\x7d"⟩]

theorem lines_accessor (m : BoundMethod) : lines (accessor m) = accessorLines m := by
  have hreturn : "return " ++ (Request.ofMethod m).text ++ ";" =
      "return " ++ (transport m.shape).2 ++ "(" ++ argumentText m ++ ");" := by
    rw [Request.text, Request.callee_ofMethod, ← String.toList_inj]
    simp [Request.ofMethod, Message.ofMethod, argumentText]
  rw [lines, accessorLines, Request.modifier_ofMethod, hreturn]

end InstanceMember

/-- The instance members of the proxy class of a hub, in the order of the text. -/
def instanceMembers (hub : BoundContract) : List InstanceMember :=
  .field :: hub.methods.map .accessor

def memberNames (hub : BoundContract) : List String := (instanceMembers hub).map (·.name)

private theorem memberNames_eq (hub : BoundContract) :
    memberNames hub = "connection" :: hub.methods.map (·.localName) := by
  rw [memberNames, instanceMembers, List.map_cons, List.map_map]
  rfl

/-- The class is written with these members and no others. -/
theorem classLines_eq (hub : BoundContract) :
    classLines hub = ⟨0, "class " ++ hub.name ++ "_HubProxy implements " ++ hub.name ++ " \x7b"⟩
      :: ((instanceMembers hub).flatMap (·.lines) ++ [⟨0, "\x7d"⟩, .empty]) := by
  have haccessors : (hub.methods.map InstanceMember.accessor).flatMap (·.lines) =
      hub.methods.flatMap accessorLines := by
    rw [List.flatMap_map]
    exact List.flatMap_congr fun m _ => InstanceMember.lines_accessor m
  rw [classLines, instanceMembers, List.flatMap_cons, haccessors]
  rfl

/-! ## What names stand for -/

/-- The member that a name stands for. A class that declares one name twice is refused, so such a
name stands for nothing. -/
def denoted? (members : List InstanceMember) (name : String) : Option InstanceMember :=
  match members.filter (·.name == name) with
  | [member] => some member
  | _ => none

private theorem denoted?_eq_some_iff {members : List InstanceMember} {name : String}
    {member : InstanceMember} :
    denoted? members name = some member ↔ members.filter (·.name == name) = [member] := by
  unfold denoted?
  split
  · rename_i only h
    rw [h, Option.some.injEq, List.cons.injEq, and_iff_left rfl]
  · rename_i h
    simpa using h member

/-- All members can be referred to exactly if their names are different. -/
theorem denoted?_self_iff {members : List InstanceMember} :
    (∀ member ∈ members, denoted? members member.name = some member) ↔
      (members.map (·.name)).Nodup := by
  simp only [denoted?_eq_some_iff]
  induction members with
  | nil => simp
  | cons first rest ih =>
    have hfirst : (first :: rest).filter (·.name == first.name) = [first] ↔
        first.name ∉ rest.map (·.name) := by
      simp [List.filter_eq_nil_iff]
    rw [List.forall_mem_cons, hfirst, List.map_cons, List.nodup_cons, ← ih]
    refine and_congr_right fun hfree => forall₂_congr fun member hmember => ?_
    have hne : first.name ≠ member.name := fun e => hfree (e ▸ List.mem_map_of_mem hmember)
    rw [List.filter_cons_of_neg (by simpa using hne)]

/-- Evaluates the body of an accessor, up to the message that the connection gets. -/
def Request.perform? (members : List InstanceMember) (q : Request) : Option Message :=
  match denoted? members q.object with
  | some .field => some q.message
  | _ => none

/-- Calls the accessor with a name. -/
def call? (members : List InstanceMember) (name : String) : Option Message :=
  match denoted? members name with
  | some (.accessor m) => (Request.ofMethod m).perform? members
  | _ => none

private theorem call?_of_nodup (h : (memberNames hub).Nodup) {m : BoundMethod}
    (hm : m ∈ hub.methods) :
    call? (instanceMembers hub) m.localName = some (.ofMethod m) := by
  have hdenoted := denoted?_self_iff.mpr h
  have haccessor : denoted? (instanceMembers hub) m.localName = some (.accessor m) :=
    hdenoted (.accessor m) (List.mem_cons_of_mem _ (List.mem_map_of_mem hm))
  have hfield : denoted? (instanceMembers hub) "connection" = some .field :=
    hdenoted .field List.mem_cons_self
  simp only [call?, haccessor, Request.perform?, Request.ofMethod, hfield]

/-- If an accessor has the name of the field, no accessor finds the connection. -/
theorem call?_of_clash (h : "connection" ∈ hub.methods.map (·.localName)) (name : String) :
    call? (instanceMembers hub) name = none := by
  have hlost : denoted? (instanceMembers hub) "connection" = none := by
    obtain ⟨m, hm, hname⟩ := List.mem_map.mp h
    rw [Option.eq_none_iff_forall_ne_some]
    intro member hmember
    rw [denoted?_eq_some_iff] at hmember
    have hfield : InstanceMember.field ∈ [member] := by
      rw [← hmember]
      exact List.mem_filter.mpr ⟨List.mem_cons_self, rfl⟩
    have haccessor : InstanceMember.accessor m ∈ [member] := by
      rw [← hmember]
      refine List.mem_filter.mpr ⟨List.mem_cons_of_mem _ (List.mem_map_of_mem hm), ?_⟩
      exact beq_iff_eq.mpr hname
    rw [List.mem_singleton] at hfield haccessor
    exact absurd (hfield.trans haccessor.symm) (by simp)
  unfold call?
  split
  · simp only [Request.perform?, Request.ofMethod, hlost]
  · rfl

/-- A name that two members have stands for nothing. -/
theorem call?_of_repeated {name : String} (h : 1 < (memberNames hub).count name) :
    call? (instanceMembers hub) name = none := by
  have hcount : 1 < ((instanceMembers hub).filter (·.name == name)).length := by
    rwa [memberNames, List.count_eq_countP, List.countP_map, List.countP_eq_length_filter] at h
  have hlost : denoted? (instanceMembers hub) name = none := by
    rw [Option.eq_none_iff_forall_ne_some]
    intro member hmember
    rw [denoted?_eq_some_iff] at hmember
    rw [hmember] at hcount
    exact absurd hcount (by simp)
  rw [call?, hlost]

/-! ## Proxies of a run -/

/-- The proxy class of a hub as the index file shows it: its members, when their names are
different, and what follows from that for calls. -/
structure HasMembers (x : Generator) (b : Bindings) (hub : BoundContract) : Prop where
  printed : ⟨0, "class " ++ (shown x hub).name ++ "_HubProxy implements " ++ (shown x hub).name
      ++ " \x7b"⟩ :: ((instanceMembers (shown x hub)).flatMap (·.lines) ++ [⟨0, "\x7d"⟩, .empty])
    <:+: aggregateLines x b
  accessors : (hub.methods.map (·.localName)).Nodup
  distinct_iff : (memberNames (shown x hub)).Nodup ↔
    (∀ m ∈ hub.methods, m.wireName ∉ x.settings.methodStyle.connectionNames) ∧
      StayApart x.settings.output.lineEnding (hub.methods.map (·.localName))
  denoted : (memberNames (shown x hub)).Nodup → ∀ member ∈ instanceMembers (shown x hub),
    denoted? (instanceMembers (shown x hub)) member.name = some member
  calls : (memberNames (shown x hub)).Nodup → ∀ m ∈ (shown x hub).methods,
    call? (instanceMembers (shown x hub)) m.localName = some (.ofMethod m)
  /-- With the name of the field among them no accessor has a connection. -/
  lost : (∃ m ∈ hub.methods, m.wireName ∈ x.settings.methodStyle.connectionNames) →
    ∀ name, call? (instanceMembers (shown x hub)) name = none
  /-- Names that differ in line breaks only stand for nothing. -/
  confused : ∀ name, 1 < (memberNames (shown x hub)).count name →
    call? (instanceMembers (shown x hub)) name = none

section Names

variable {style : NamingStyle} (hstyle : ∀ m ∈ hub.methods, m.localName = style.apply m.wireName)
include hstyle

/-- The name of the field has no line breaks, so it is shown for no other name. -/
theorem connection_mem_iff :
    "connection" ∈ (shown x hub).methods.map (·.localName) ↔
      ∃ m ∈ hub.methods, m.wireName ∈ style.connectionNames := by
  rw [shown, BoundContract.withBreaks, List.map_map, List.mem_map]
  refine exists_congr fun m => and_congr_right fun hm => ?_
  rw [← NamingStyle.apply_eq_connection_iff, ← hstyle m hm]
  constructor
  · intro h
    exact eq_of_withBreaks_unbroken (by decide) h
  · intro h
    exact (congrArg (withBreaks _) h).trans (withBreaks_solid (by decide))

private theorem memberNames_nodup_iff (haccessors : (hub.methods.map (·.localName)).Nodup) :
    (memberNames (shown x hub)).Nodup ↔
      (∀ m ∈ hub.methods, m.wireName ∉ style.connectionNames) ∧
        StayApart x.settings.output.lineEnding (hub.methods.map (·.localName)) := by
  rw [memberNames_eq, List.nodup_cons, connection_mem_iff hstyle, shown_localNames,
    nodup_withBreaks_iff, and_iff_right haccessors]
  simp only [not_exists, not_and]

end Names

/-- The hubs of a run and the members of their proxies. -/
def AllHaveMembers (x : Generator) (g : TypeGraph) (out : Output) : Prop :=
  ∃ w b, prepare x.settings g = .ok w ∧ x.bindings? g w = some b ∧ out.files = sources x b ∧
    ∀ hub ∈ b.hubs, HasMembers x b hub

/-- In every run, the members of a proxy have different names unless the style gives a method the
name of the field, or names differ in line breaks only. In the style `pascalCase` no method gets the
name of the field. -/
theorem proxy_members_distinct {out : Output} (hg : g.Reachable)
    (h : x.generate? g = some (.ok out)) : AllHaveMembers x g out := by
  obtain ⟨w, b, hw, hb, rfl⟩ := generate?_eq_ok h
  refine ⟨w, b, hw, hb, emit_files x b, fun hub hhub => ?_⟩
  obtain ⟨haccessors, hstyle⟩ := (bindings?_boundRole hb).1.methodNames hg.coherent hhub
  exact
    { printed := classLines_eq (shown x hub) ▸
        (List.suffix_append _ _).isInfix.trans (proxyLines_within hhub)
      accessors := haccessors
      distinct_iff := memberNames_nodup_iff hstyle haccessors
      denoted := denoted?_self_iff.mpr
      calls := fun hnames _ hm => call?_of_nodup hnames hm
      lost := fun hclash => call?_of_clash ((connection_mem_iff hstyle).mpr hclash)
      confused := fun _ hname => call?_of_repeated hname }

theorem roomProgram_members_distinct :
    roomProgram.Reachable ∧
      (∃ w b, prepare {} roomProgram = .ok w ∧ ({} : Generator).bindings? roomProgram w = some b ∧
        b.hubs.map memberNames = [["connection", "joinAs", "leave"], ["connection", "enter"]]) ∧
      ∃ out, ({} : Generator).generate? roomProgram = some (.ok out) ∧
        AllHaveMembers {} roomProgram out :=
  ⟨roomProgram_reachable, ⟨_, _, rfl, rfl, by decide +kernel⟩, _, rfl,
    proxy_members_distinct roomProgram_reachable rfl⟩

/-- A program with a hub that has a method `Connection`. -/
def phoneProgram : TypeGraph :=
  TypeGraph.declareAll
    [{ head := { kind := .classType, nameSpace := "TypedSignalR.Client", name := "HubAttribute" } },
     { head :=
        { kind := .classType, nameSpace := "TypedSignalR.Client", name := "ReceiverAttribute" } },
     { head :=
        { kind := .classType, nameSpace := "Tapper", name := "TranspilationSourceAttribute" } },
     { head := { kind := .classType, nameSpace := "System.Threading.Tasks", name := "Task" } },
     { head := { kind := .interface, nameSpace := "App", name := "IPhone" }
       attributes := [⟨0⟩]
       methods := [{ name := "Connection", returns := ⟨3⟩ }, { name := "Ring", returns := ⟨3⟩ }] }]
    {}

theorem phoneProgram_members_clash :
    phoneProgram.Reachable ∧ ∃ w b out hub, prepare {} phoneProgram = .ok w ∧
      ({} : Generator).bindings? phoneProgram w = some b ∧
      ({} : Generator).generate? phoneProgram = some (.ok out) ∧ out.diagnostics = [] ∧
      out.files = sources {} b ∧ b.hubs.head? = some hub ∧
      memberNames (shown {} hub) = ["connection", "connection", "ring"] ∧
      ¬ (memberNames (shown {} hub)).Nodup ∧
      call? (instanceMembers (shown {} hub)) "ring" = none :=
  ⟨.declareAll .empty (by decide +kernel), _, _, _, _, rfl, rfl, rfl, by decide +kernel,
    emit_files _ _, rfl, by decide +kernel, by decide +kernel, by decide +kernel⟩

end Client

end HubBindings
