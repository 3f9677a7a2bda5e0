import HubBindings.Proofs.Client.Binder
import HubBindings.Proofs.TypeGraph.Representation

/-!
Registration and disposal of listeners.

* `registerScript` is the body of a register function as statements, and `registerLines_eq` says
  that its lines are those that are written;
* `Statement.run?` runs statements in a scope of names, with a connection that is a list of names
  and functions. A name is defined once, so that running depends on all names being different;
* `register?_eq_some`: the script runs to its end and leaves the connection with one more pair for
  each method;
* `disposers_restore`: for every receiver of a run, disposing of what was registered gives the
  connection back, and disposing again changes nothing, unless the index file shows two methods
  under one name (`newsProgram_refused`).
-/

namespace HubBindings.Client

open Generator Sequencing Text

variable {x : Generator} {g : TypeGraph} {w : WellKnown} {b : Bindings} {r : BoundContract}

/-! ## Scripts -/

/-- A statement in the body of a register function. -/
inductive Statement where
  /-- Defines a function that passes its arguments on to a member of the receiver. -/
  | listen (handler member : String) (argumentTypes : List String)
  /-- Registers a function that was defined. -/
  | on (wireName handler : String)
  /-- Defines the list of what was registered. -/
  | collect (entries : List (String × String))
  /-- Returns the subscription with the list. -/
  | subscribe

/-- The lines of a statement. There is a comma after each entry of the list but the last. -/
def Statement.lines : Statement → List Line
  | listen handler member argumentTypes =>
    [⟨2, if argumentTypes.isEmpty
      then "const " ++ handler ++ " = () => receiver." ++ member ++ "();"
      else "const " ++ handler ++ " = (...args: [" ++ ", ".intercalate argumentTypes
        ++ "]) => receiver." ++ member ++ "(...args);"⟩]
  | on wireName handler =>
    [⟨2, "connection.on(\"" ++ wireName ++ "\", " ++ handler ++ ");"⟩]
  | collect entries =>
    ⟨2, "const methodList: ReceiverMethod[] = ["⟩
      :: (entries.mapIdx (fun k e =>
        ⟨3, "\x7b methodName: \"" ++ e.1 ++ "\", method: " ++ e.2 ++ " \x7d"
          ++ if k + 1 < entries.length then "," else ""⟩)
      ++ [⟨2, "];"⟩])
  | subscribe => [⟨2, "return new ReceiverMethodSubscription(connection, methodList);"⟩]

/-- The statement that defines the function for a method. -/
def Statement.listenFor (m : BoundMethod) : Statement :=
  .listen (handlerName m) m.localName (m.parameters.map (·.text))

/-- The statement that registers the function for a method. -/
def Statement.onCallOf (m : BoundMethod) : Statement := .on m.wireName (handlerName m)

/-- The statements of a register function, in groups. What belongs to a method has the place of the
method in each of the first three. -/
def registerScript (ms : List BoundMethod) : List (List Statement) :=
  [ms.map .listenFor,
   ms.map .onCallOf,
   [.collect (ms.map fun m => (m.wireName, handlerName m))],
   [.subscribe]]

/-- The lines of statements, with an empty one before each group. -/
def scriptLines (groups : List (List Statement)) : List Line :=
  groups.flatMap fun group => .empty :: group.flatMap Statement.lines

/-- The body of a register function is written from the statements. -/
theorem registerLines_eq (ms : List BoundMethod) :
    registerLines ms = scriptLines (registerScript ms) := by
  have hlisten : (ms.map Statement.listenFor).flatMap Statement.lines =
      ms.map fun m => Line.mk 2 (handlerLine m) := by
    rw [List.flatMap_map, List.map_eq_flatMap]
    refine List.flatMap_congr fun m _ => ?_
    rw [handlerLine, Statement.listenFor, Statement.lines]
    cases m.parameters <;> rfl
  have hon : (ms.map Statement.onCallOf).flatMap Statement.lines =
      ms.map fun m => Line.mk 2 (registrationLine m) := by
    rw [List.flatMap_map, List.map_eq_flatMap]
    rfl
  have hentries : (ms.map fun m => (m.wireName, handlerName m)).mapIdx (fun k e =>
      Line.mk 3 ("\x7b methodName: \"" ++ e.1 ++ "\", method: " ++ e.2 ++ " \x7d"
        ++ if k + 1 < (ms.map fun m => (m.wireName, handlerName m)).length then "," else "")) =
      ms.mapIdx fun k m => Line.mk 3 (entryLine ms.length k m) := by
    refine List.ext_getElem (by simp) fun k _ _ => ?_
    simp only [List.getElem_map, List.getElem_mapIdx, List.length_map]
    rfl
  simp only [registerLines, scriptLines, registerScript, List.flatMap_cons, List.flatMap_nil,
    Statement.lines, hlisten, hon, hentries]
  simp

/-! ## Running a script -/

/-- A function that a script defines: its identity, and the member of the receiver that it calls. -/
structure Handler where
  id : Nat
  member : String
  deriving DecidableEq, Repr

/-- What is registered with a connection. -/
abbrev Registrations := List (String × Handler)

inductive Value where
  | connection
  | receiver
  | handler (h : Handler)
  | methods (entries : Registrations)
  deriving DecidableEq, Repr

/-- The state of a register function that runs. -/
structure Frame where
  /-- What names stand for. -/
  names : List (String × Value) := [("connection", .connection), ("receiver", .receiver)]
  /-- The identity of the next function that is defined. -/
  next : Nat
  connection : Registrations
  /-- The list in the subscription that was returned. -/
  returned : Option Registrations := none
  deriving DecidableEq, Repr

def Frame.handler? (f : Frame) (name : String) : Option Handler :=
  match f.names.lookup name with
  | some (.handler h) => some h
  | _ => none

/-- Runs a statement. A name that stands for something cannot be defined, and one that stands for
something else, or for nothing, cannot be used. -/
def Statement.run? (f : Frame) : Statement → Option Frame
  | listen handler member _ =>
    if f.names.lookup handler = none ∧ f.names.lookup "receiver" = some .receiver then
      some { f with
        names := f.names ++ [(handler, .handler { id := f.next, member })]
        next := f.next + 1 }
    else none
  | on wireName handler =>
    if f.names.lookup "connection" = some .connection then
      (f.handler? handler).map fun h => { f with connection := f.connection ++ [(wireName, h)] }
    else none
  | collect entries =>
    if f.names.lookup "methodList" = none then
      (entries.mapM fun e => (f.handler? e.2).map (e.1, ·)).map fun es =>
        { f with names := f.names ++ [("methodList", .methods es)] }
    else none
  | subscribe =>
    match f.names.lookup "connection", f.names.lookup "methodList" with
    | some .connection, some (.methods es) => some { f with returned := some es }
    | _, _ => none

/-- Runs statements one after the other. -/
def runAll? (f : Frame) (statements : List Statement) : Option Frame :=
  statements.foldlM Statement.run? f

/-- What a script registers for methods, if the first function that it defines has identity `n`. -/
def registered (n : Nat) (ms : List BoundMethod) : Registrations :=
  (ms.zipIdx n).map fun q => (q.1.wireName, { id := q.2, member := q.1.localName })

/-- The constants that a script defines for methods. -/
def constants (n : Nat) (ms : List BoundMethod) : List (String × Value) :=
  (ms.zipIdx n).map fun q => (handlerName q.1, .handler { id := q.2, member := q.1.localName })

private theorem constants_names (n : Nat) (ms : List BoundMethod) :
    (constants n ms).map (·.1) = ms.map handlerName := by
  calc (constants n ms).map (·.1) = ((ms.zipIdx n).map (·.1)).map handlerName := by
        rw [constants, List.map_map, List.map_map]
        rfl
    _ = ms.map handlerName := by rw [List.zipIdx_map_fst]

/-- Every method has its function in the end, if all names are different. -/
theorem run_listens {f : Frame} {ms : List BoundMethod}
    (hnames : (f.names.map (·.1) ++ ms.map handlerName).Nodup)
    (hreceiver : f.names.lookup "receiver" = some .receiver) :
    runAll? f (ms.map .listenFor) =
      some { f with names := f.names ++ constants f.next ms, next := f.next + ms.length } := by
  induction ms generalizing f with
  | nil => simp [runAll?, constants]
  | cons m ms ih =>
    have hfree : f.names.lookup (handlerName m) = none := by
      rw [List.lookup_eq_none_iff]
      intro e he
      rw [bne_iff_ne]
      rintro hname
      refine (List.nodup_append.mp hnames).2.2 e.1 (List.mem_map_of_mem he) (handlerName m) ?_
        hname.symm
      exact List.mem_cons_self
    have hstep : (Statement.listenFor m).run? f = some { f with
        names := f.names ++ [(handlerName m, .handler { id := f.next, member := m.localName })]
        next := f.next + 1 } := by
      simp [Statement.listenFor, Statement.run?, hfree, hreceiver]
    rw [runAll?, List.map_cons, List.foldlM_cons, hstep]
    refine (ih (by simpa using hnames) (by simp [List.lookup_append, hreceiver])).trans ?_
    simp [constants, List.zipIdx_cons]
    omega

/-- The functions of methods can be found under their names. -/
def Frame.Defines (f : Frame) (n : Nat) (ms : List BoundMethod) : Prop :=
  ∀ q ∈ ms.zipIdx n, f.handler? (handlerName q.1) = some { id := q.2, member := q.1.localName }

private theorem run_onCalls {f : Frame} {n : Nat} {ms : List BoundMethod}
    (hdefines : f.Defines n ms)
    (hconnection : f.names.lookup "connection" = some .connection) :
    runAll? f (ms.map .onCallOf) =
      some { f with connection := f.connection ++ registered n ms } := by
  induction ms generalizing f n with
  | nil => simp [runAll?, registered]
  | cons m ms ih =>
    rw [Frame.Defines, List.zipIdx_cons, List.forall_mem_cons] at hdefines
    obtain ⟨hfirst, hrest⟩ := hdefines
    have hstep : (Statement.onCallOf m).run? f = some { f with
        connection := f.connection ++ [(m.wireName, { id := n, member := m.localName })] } := by
      simp [Statement.onCallOf, Statement.run?, hconnection, hfirst]
    rw [runAll?, List.map_cons, List.foldlM_cons, hstep]
    have hnext : Frame.Defines { f with
        connection := f.connection ++ [(m.wireName, { id := n, member := m.localName })] }
          (n + 1) ms := hrest
    refine (ih hnext hconnection).trans ?_
    simp [registered, List.zipIdx_cons]

private theorem run_collect {f : Frame} {n : Nat} {ms : List BoundMethod}
    (hdefines : f.Defines n ms)
    (hfree : f.names.lookup "methodList" = none) :
    (Statement.collect (ms.map fun m => (m.wireName, handlerName m))).run? f =
      some { f with names := f.names ++ [("methodList", .methods (registered n ms))] } := by
  have hentries : (ms.map fun m => (m.wireName, handlerName m)).mapM
      (fun e => (f.handler? e.2).map (e.1, ·)) = some (registered n ms) := by
    have hall : List.Forall₂ (fun m e => (f.handler? (handlerName m)).map (m.wireName, ·) = some e)
        ((ms.zipIdx n).map (·.1)) (registered n ms) := by
      rw [registered, List.forall₂_map_left_iff, List.forall₂_map_right_iff, List.forall₂_same]
      intro q hq
      simp [hdefines q hq]
    rw [List.zipIdx_map_fst] at hall
    rw [mapM_eq_some_iff, List.forall₂_map_left_iff]
    exact hall
  simp [Statement.run?, hfree, hentries]

/-- A subscription: the connection and the list of what to take back. -/
structure Subscription where
  connection : Registrations
  receiverMethod : Registrations
  deriving DecidableEq, Repr

/-- Runs a register function with a connection. The functions that it defines have identities from
`n` on. -/
def register? (n : Nat) (c : Registrations) (ms : List BoundMethod) : Option Subscription := do
  let f ← (registerScript ms).foldlM runAll? { next := n, connection := c }
  return { connection := f.connection, receiverMethod := ← f.returned }

/-- The frame of a register function after all functions are defined. -/
def Frame.listening (n : Nat) (c : Registrations) (ms : List BoundMethod) : Frame :=
  { names := [("connection", .connection), ("receiver", .receiver)] ++ constants n ms
    next := n + ms.length
    connection := c }

/-- The frame of a register function after the list is defined. -/
def Frame.collected (n : Nat) (c : Registrations) (ms : List BoundMethod) : Frame :=
  { Frame.listening n (c ++ registered n ms) ms with
    names := (Frame.listening n c ms).names ++ [("methodList", .methods (registered n ms))] }

section Names

variable {ms : List BoundMethod}
  (hnames : ("connection" :: "receiver" :: "methodList" :: ms.map handlerName).Nodup)
  (n : Nat) (c : Registrations)
include hnames

private theorem listening_names :
    ((Frame.listening n c ms).names.map (·.1)).Nodup ∧
      "methodList" ∉ (Frame.listening n c ms).names.map (·.1) := by
  have hkeys : (Frame.listening n c ms).names.map (·.1) =
      "connection" :: "receiver" :: ms.map handlerName := by
    simp [Frame.listening, constants_names]
  rw [hkeys]
  simp only [List.nodup_cons, List.mem_cons, not_or] at hnames ⊢
  tauto

private theorem listening_defines : (Frame.listening n c ms).Defines n ms := by
  intro q hq
  have hmem : (handlerName q.1, Value.handler { id := q.2, member := q.1.localName }) ∈
      (Frame.listening n c ms).names := List.mem_append_right _ (List.mem_map_of_mem hq)
  rw [Frame.handler?, TypeGraph.lookup_of_mem (listening_names hnames n c).1 hmem]

/-- With different names, a register function adds one pair for each method and returns them all. -/
theorem register?_eq_some : register? n c ms =
    some { connection := c ++ registered n ms, receiverMethod := registered n ms } := by
  obtain ⟨hkeys, hlist⟩ := listening_names hnames n c
  have hdefines := listening_defines hnames n c
  have hconnection : (Frame.listening n c ms).names.lookup "connection" = some .connection := rfl
  have hfree : (Frame.listening n c ms).names.lookup "methodList" = none := by
    rw [List.lookup_eq_none_iff]
    intro e he
    rw [bne_iff_ne]
    rintro hname
    exact hlist (hname ▸ List.mem_map_of_mem he)
  have hlisten : runAll? { next := n, connection := c } (ms.map .listenFor) =
      some (Frame.listening n c ms) := by
    refine run_listens ?_ rfl
    simpa [Frame.listening, constants_names] using hkeys
  have hon : runAll? (Frame.listening n c ms) (ms.map .onCallOf) =
      some (Frame.listening n (c ++ registered n ms) ms) := run_onCalls hdefines hconnection
  have hcollect : runAll? (Frame.listening n (c ++ registered n ms) ms)
      [.collect (ms.map fun m => (m.wireName, handlerName m))] = some (Frame.collected n c ms) := by
    have hstep := run_collect (f := Frame.listening n (c ++ registered n ms) ms) hdefines hfree
    rw [runAll?, List.foldlM_cons, hstep]
    rfl
  have hsubscribe : runAll? (Frame.collected n c ms) [.subscribe] =
      some { Frame.collected n c ms with returned := some (registered n ms) } := by
    simp [runAll?, Statement.run?, Frame.collected, List.lookup_append, hconnection, hfree]
  simp only [register?, registerScript, List.foldlM_cons, List.foldlM_nil, Option.bind_eq_bind,
    Option.bind_some, hlisten, hon, hcollect, hsubscribe]
  rfl

end Names

private theorem nodup_handlerNames_iff {ms : List BoundMethod} :
    (ms.map handlerName).Nodup ↔ (ms.map (·.localName)).Nodup := by
  have hmap : ms.map handlerName = (ms.map (·.localName)).map ("__" ++ ·) := by
    rw [List.map_map]
    rfl
  rw [hmap]
  exact ⟨List.Nodup.of_map _, fun h => h.map fun _ _ => (String.append_right_inj "__").mp⟩

/-- A name cannot be defined twice. -/
theorem run_listens_eq_none {f : Frame} {ms : List BoundMethod} (hkeys : (f.names.map (·.1)).Nodup)
    (hnames : ¬ (f.names.map (·.1) ++ ms.map handlerName).Nodup) :
    runAll? f (ms.map .listenFor) = none := by
  induction ms generalizing f with
  | nil => exact absurd (by simpa using hkeys) hnames
  | cons m ms ih =>
    rw [runAll?, List.map_cons, List.foldlM_cons]
    by_cases hdefined : f.names.lookup (handlerName m) = none ∧
        f.names.lookup "receiver" = some .receiver
    · have hfree : handlerName m ∉ f.names.map (·.1) := by
        rintro hmem
        obtain ⟨e, he, hname⟩ := List.mem_map.mp hmem
        have h := List.lookup_eq_none_iff.mp hdefined.1 e he
        exact absurd hname.symm (bne_iff_ne.mp h)
      have hstep : (Statement.listenFor m).run? f = some { f with
          names := f.names ++ [(handlerName m, .handler { id := f.next, member := m.localName })]
          next := f.next + 1 } := by
        rw [Statement.listenFor, Statement.run?, if_pos hdefined]
      rw [hstep]
      refine ih ?_ ?_
      · rw [List.map_append, List.map_singleton, List.nodup_append]
        refine ⟨hkeys, List.nodup_singleton _, fun a ha a' ha' e => hfree ?_⟩
        have hname : a = handlerName m := e.trans (List.mem_singleton.mp ha')
        exact hname ▸ ha
      · simpa using hnames
    · have hstep : (Statement.listenFor m).run? f = none := by
        rw [Statement.listenFor, Statement.run?, if_neg hdefined]
      rw [hstep]
      rfl

/-- A register function with two listeners of one name cannot be run. -/
theorem register?_eq_none {ms : List BoundMethod} (n : Nat) (c : Registrations)
    (hnames : ¬ (ms.map (·.localName)).Nodup) : register? n c ms = none := by
  have hlisten : runAll? { next := n, connection := c } (ms.map .listenFor) = none := by
    refine run_listens_eq_none (by simp) fun h => hnames ?_
    exact nodup_handlerNames_iff.mp (List.nodup_append.mp h).2.1
  simp only [register?, registerScript, List.foldlM_cons, hlisten]
  rfl

/-! ## Disposal -/

/-- Takes one pair back. -/
def off (c : Registrations) (e : String × Handler) : Registrations := c.erase e

/-- Takes back all that is in the list, in its order, and empties the list. -/
def Subscription.dispose (s : Subscription) : Subscription :=
  { connection := s.receiverMethod.foldl off s.connection, receiverMethod := [] }

private theorem off_append {c rest : Registrations} {e : String × Handler} (h : e ∉ c) :
    off (c ++ e :: rest) e = c ++ rest := by
  rw [off, List.erase_append_right _ h, List.erase_cons_head]

/-- What is taken back first was registered first. -/
theorem foldl_off {c before after : Registrations} (h : ∀ e ∈ before, e ∉ c) :
    before.foldl off (c ++ (before ++ after)) = c ++ after := by
  induction before with
  | nil => rfl
  | cons e before ih =>
    obtain ⟨he, hrest⟩ := List.forall_mem_cons.mp h
    rw [List.foldl_cons, List.cons_append, off_append he, ih hrest]

/-! ## Binders of a run -/

private theorem subscriptionLines_within (x : Generator) (b : Bindings) :
    subscriptionLines <:+: aggregateLines x b := by
  rw [aggregateLines, indexLines, componentLines]
  iterate 7 apply List.infix_append_of_infix_left
  exact List.infix_append_of_infix_right (List.suffix_append _ _).isInfix

/-- The lines of the function `register` of a binder. -/
def registerFunction (r : BoundContract) : List Line :=
  ⟨1, "public readonly register = (connection: HubConnection, receiver: " ++ r.name
      ++ "): Disposable => \x7b"⟩
    :: (scriptLines (registerScript r.methods) ++ [⟨1, "\x7d"⟩])

private theorem registerFunction_within (r : BoundContract) :
    registerFunction r <:+: binderLines r := by
  rw [registerFunction, ← registerLines_eq, binderLines]
  iterate 7 apply List.infix_cons
  exact ⟨[], [⟨0, "\x7d"⟩, .empty], by simp⟩

/-- Registration adds one pair for each method to a connection. The first `k` entries of the list
take the first `k` of them back, disposal takes back all, and a second one changes nothing. -/
def Restores (ms : List BoundMethod) (n : Nat) (c : Registrations) : Prop :=
  ∃ s : Subscription, register? n c ms = some s ∧ s.connection = c ++ registered n ms ∧
    s.receiverMethod = registered n ms ∧
    (∀ k, (s.receiverMethod.take k).foldl off s.connection = c ++ (registered n ms).drop k) ∧
    s.dispose = { connection := c, receiverMethod := [] } ∧ s.dispose.dispose = s.dispose

/-- The binder of a receiver as the index file shows it. It registers the methods in their order,
and what it returns takes all of it back unless two methods are shown under one name. -/
structure Disposes (x : Generator) (b : Bindings) (r : BoundContract) : Prop where
  printed : binderLines (shown x r) <:+: aggregateLines x b
  registration : registerFunction (shown x r) <:+: binderLines (shown x r)
  disposal : subscriptionLines <:+: aggregateLines x b
  names : ("connection" :: "receiver" :: "methodList" :: r.methods.map handlerName).Nodup
  wireNames : (r.methods.map (·.wireName)).Nodup
  /-- The names of handlers that are shown are different exactly if no two methods have generated
  names that differ in line breaks only. -/
  shownNames_iff :
    ("connection" :: "receiver" :: "methodList" :: (shown x r).methods.map handlerName).Nodup ↔
      StayApart x.settings.output.lineEnding (r.methods.map (·.localName))
  shownWireNames_iff : ((shown x r).methods.map (·.wireName)).Nodup ↔
    StayApart x.settings.output.lineEnding (r.methods.map (·.wireName))
  /-- What is registered has the names of the program exactly if their line breaks have the form of
  the file. -/
  verbatim_iff : ∀ n, registered n (shown x r).methods = registered n r.methods ↔
    ∀ m ∈ r.methods, BreaksBy x.settings.output.lineEnding m.wireName ∧
      BreaksBy x.settings.output.lineEnding m.localName
  /-- The connection may hold any pairs but those of functions that are yet to be defined. -/
  restores : StayApart x.settings.output.lineEnding (r.methods.map (·.localName)) → ∀ n c,
    (∀ e ∈ c, e.2 ∉ (registered n (shown x r).methods).map (·.2)) →
      Restores (shown x r).methods n c
  refused : ¬ StayApart x.settings.output.lineEnding (r.methods.map (·.localName)) →
    ∀ n c, register? n c (shown x r).methods = none

/-- The names of handlers differ from all other names, and from each other if the generated names
do. -/
theorem handlerNames_nodup_iff {ms : List BoundMethod} :
    ("connection" :: "receiver" :: "methodList" :: ms.map handlerName).Nodup ↔
      (ms.map (·.localName)).Nodup := by
  -- no parameter and no other constant begins with the mark of handlers
  have hmark : ∀ name : String, name.toList.head? ≠ some '_' → name ∉ ms.map handlerName := by
    rintro name hname hmem
    obtain ⟨m, _, rfl⟩ := List.mem_map.mp hmem
    exact hname (by simp [handlerName])
  rw [← nodup_handlerNames_iff]
  simp only [List.nodup_cons, List.mem_cons, not_or]
  constructor
  · rintro ⟨_, _, _, h⟩
    exact h
  · intro h
    exact ⟨⟨by decide, by decide, hmark _ (by decide)⟩, ⟨by decide, hmark _ (by decide)⟩,
      hmark _ (by decide), h⟩

private theorem restores_connection {ms : List BoundMethod}
    (hnames : ("connection" :: "receiver" :: "methodList" :: ms.map handlerName).Nodup) {n : Nat}
    {c : Registrations} (hfresh : ∀ e ∈ c, e.2 ∉ (registered n ms).map (·.2)) :
    Restores ms n c := by
  have hnot : ∀ e ∈ registered n ms, e ∉ c :=
    fun e he hmem => hfresh e hmem (List.mem_map_of_mem he)
  have htake : ∀ k, ((registered n ms).take k).foldl off (c ++ registered n ms) =
      c ++ (registered n ms).drop k := by
    intro k
    have hbefore : ∀ e ∈ (registered n ms).take k, e ∉ c :=
      fun e he => hnot e (List.mem_of_mem_take he)
    calc ((registered n ms).take k).foldl off (c ++ registered n ms)
        = ((registered n ms).take k).foldl off
            (c ++ ((registered n ms).take k ++ (registered n ms).drop k)) := by
          rw [List.take_append_drop]
      _ = c ++ (registered n ms).drop k := foldl_off hbefore
  have hall : (registered n ms).foldl off (c ++ registered n ms) = c := by
    simpa using htake (registered n ms).length
  refine ⟨_, register?_eq_some hnames n c, rfl, rfl, htake, ?_, rfl⟩
  rw [Subscription.dispose, hall]

private theorem registered_withBreaks_iff {e : LineEnding} {ms : List BoundMethod} (n : Nat) :
    registered n (ms.map (·.withBreaks e)) = registered n ms ↔
      ∀ m ∈ ms, BreaksBy e m.wireName ∧ BreaksBy e m.localName := by
  induction ms generalizing n with
  | nil => simp [registered]
  | cons m ms ih =>
    have hcons : ∀ m (ms : List BoundMethod), registered n (m :: ms) =
        (m.wireName, { id := n, member := m.localName }) :: registered (n + 1) ms := fun m ms => rfl
    rw [List.map_cons, hcons, hcons, List.cons.injEq, ih, List.forall_mem_cons,
      ← withBreaks_eq_self_iff, ← withBreaks_eq_self_iff]
    simp [BoundMethod.withBreaks]

private theorem binder_disposes (hr : r ∈ b.receivers)
    (hlocal : (r.methods.map (·.localName)).Nodup)
    (hwire : (r.methods.map (·.wireName)).Nodup) : Disposes x b r := by
  have hshown : ((shown x r).methods.map (·.localName)).Nodup ↔
      StayApart x.settings.output.lineEnding (r.methods.map (·.localName)) := by
    rw [shown_localNames, nodup_withBreaks_iff, and_iff_right hlocal]
  exact
    { printed := binderLines_within hr
      registration := registerFunction_within _
      disposal := subscriptionLines_within x b
      names := handlerNames_nodup_iff.mpr hlocal
      wireNames := hwire
      shownNames_iff := handlerNames_nodup_iff.trans hshown
      shownWireNames_iff := by rw [shown_wireNames, nodup_withBreaks_iff, and_iff_right hwire]
      verbatim_iff := registered_withBreaks_iff
      restores := fun hapart _ _ hfresh =>
        restores_connection (handlerNames_nodup_iff.mpr (hshown.mpr hapart)) hfresh
      refused := fun hapart n c => register?_eq_none n c fun h => hapart (hshown.mp h) }

/-- Every receiver of a run has a binder that takes back what it registers. -/
def AllDisposed (x : Generator) (g : TypeGraph) (out : Output) : Prop :=
  ∃ w b, prepare x.settings g = .ok w ∧ x.bindings? g w = some b ∧ out.files = sources x b ∧
    ∀ r ∈ b.receivers, Disposes x b r

theorem disposers_restore {out : Output} (hg : g.Reachable)
    (h : x.generate? g = some (.ok out)) : AllDisposed x g out := by
  obtain ⟨w, b, hw, hb, rfl⟩ := generate?_eq_ok h
  refine ⟨w, b, hw, hb, emit_files x b, fun r hr => ?_⟩
  have hrole := (bindings?_boundRole hb).2
  exact binder_disposes hr (hrole.methodNames hg.coherent hr).1
    (hrole.wireNames_nodup hg.coherent hr)

theorem relayProgram_disposers_restore :
    relayProgram.Reachable ∧
      (∃ w b, prepare {} relayProgram = .ok w ∧ ({} : Generator).bindings? relayProgram w = some b ∧
        b.receivers.map (fun r => (r.name, r.methods.map handlerName)) =
          [("IRelay", ["__send", "__push", "__upload"]),
           ("ISink", ["__send", "__push", "__upload"])]) ∧
      ∃ out, ({} : Generator).generate? relayProgram = some (.ok out) ∧
        AllDisposed {} relayProgram out :=
  ⟨relayProgram_reachable, ⟨_, _, rfl, rfl, by decide +kernel⟩, _, rfl,
    disposers_restore relayProgram_reachable rfl⟩

-- a listener of someone else under the same name stays where it is
example : ∃ w b r s, prepare {} relayProgram = .ok w ∧
    ({} : Generator).bindings? relayProgram w = some b ∧ b.receivers.head? = some r ∧
    register? 1 [("Send", { id := 0, member := "log" })] r.methods = some s ∧
    s.connection.map (fun e => (e.1, e.2.id)) =
      [("Send", 0), ("Send", 1), ("Push", 2), ("Upload", 3)] ∧
    s.dispose.connection = [("Send", { id := 0, member := "log" })] :=
  ⟨_, _, _, _, rfl, rfl, rfl, rfl, by decide +kernel, by decide +kernel⟩

/-- A receiver with methods whose names differ in line breaks only. -/
def newsProgram : TypeGraph :=
  TypeGraph.declareAll
    [{ head := { kind := .interface, nameSpace := "App", name := "INews" }
       attributes := [⟨1⟩]
       methods :=
        [{ name := "Show\rNow", returns := ⟨3⟩ }, { name := "Show\nNow", returns := ⟨3⟩ }] }]
    roomProgram

/-- Both methods are shown under one name, so that the register function defines it twice and cannot
be run. Nothing is reported. -/
theorem newsProgram_refused :
    newsProgram.Reachable ∧
      ∃ out w b r, ({} : Generator).generate? newsProgram = some (.ok out) ∧
        out.diagnostics = [] ∧ prepare {} newsProgram = .ok w ∧
        ({} : Generator).bindings? newsProgram w = some b ∧ out.files = sources {} b ∧
        b.receivers.getLast? = some r ∧
        r.methods.map (fun m => (m.wireName, handlerName m)) =
          [("Show\rNow", "__show\rNow"), ("Show\nNow", "__show\nNow")] ∧
        (aggregateLines {} b).count ⟨2, "const __show\nNow = () => receiver.show\nNow();"⟩ = 2 ∧
        (aggregateLines {} b).count ⟨2, "connection.on(\"Show\nNow\", __show\nNow);"⟩ = 2 ∧
        ∀ n c, register? n c (shown {} r).methods = none :=
  ⟨roomProgram_reachable.declareAll (by decide +kernel), _, _, _, _, rfl, by decide +kernel, rfl,
    rfl, emit_files _ _, rfl, by decide +kernel, by decide +kernel, by decide +kernel,
    fun n c => register?_eq_none n c (by decide +kernel)⟩

end HubBindings.Client
