import HubBindings.Proofs.Client.InterfaceFile
import HubBindings.Proofs.Generator
import HubBindings.Proofs.Text.Lines

/-!
The files of a run as lines.

Every file ends with one pass over its text that gives all line breaks one form, those inside names
too. So what a file shows of a contract is the contract with the line breaks of its names changed
(`BoundContract.withBreaks`), and that is the contract itself exactly if they had the form already.

* `typeLines`, `classLines`, `binderLines` and so on write out what a file has for a contract,
  `fileLines` and `indexLines` what a file has;
* `file_prints` and `index_prints`: the layouts of files print these lines and no others;
* `emit_files`: the files of a run are made of the lines of what they show.
-/

namespace HubBindings

open Text

/-! ## Names with one form of line breaks -/

/-- A parameter as files show it. Its type in the host language stands at the end of a line. -/
def BoundParameter.withBreaks (e : LineEnding) (p : BoundParameter) : BoundParameter :=
  { name := Text.withBreaks e p.name
    text := Text.withBreaks e p.text
    display := ended e p.display }

/-- A method as files show it. -/
def BoundMethod.withBreaks (e : LineEnding) (m : BoundMethod) : BoundMethod :=
  { localName := Text.withBreaks e m.localName
    wireName := Text.withBreaks e m.wireName
    shape := m.shape
    parameters := m.parameters.map (·.withBreaks e)
    returnText := Text.withBreaks e m.returnText
    returnDisplay := ended e m.returnDisplay }

/-- A contract as files show it. -/
def BoundContract.withBreaks (e : LineEnding) (c : BoundContract) : BoundContract :=
  { c with name := Text.withBreaks e c.name, methods := c.methods.map (·.withBreaks e) }

namespace Client

open Contract Generator

/-- An import as files show it. -/
def ImportLine.withBreaks (e : LineEnding) (i : ImportLine) : ImportLine :=
  { names := i.names.map (Text.withBreaks e), source := Text.withBreaks e i.source }

/-! ## Interface files -/

/-- The statement of an import. -/
def importText (i : ImportLine) : String :=
  "import \x7b " ++ ", ".intercalate i.names ++ " \x7d from '" ++ i.source ++ "';"

/-- The lines at the top of a file. -/
def topLines (imports : List ImportLine) : List Line :=
  ⟨0, "/* THIS (.ts) FILE IS GENERATED BY hubgen */"⟩
    :: ⟨0, "/* eslint-disable */"⟩
    :: ⟨0, "/* tslint:disable */"⟩
    :: imports.map fun i => ⟨0, importText i⟩

def parameterText (m : BoundMethod) : String :=
  ", ".intercalate (m.parameters.map fun p => p.name ++ ": " ++ p.text)

/-- The line of a member in an exported type. -/
def memberLine (m : BoundMethod) : String :=
  m.localName ++ "(" ++ parameterText m ++ "): " ++ m.returnText ++ ";"

/-- The documentation of a member in an exported type. -/
def docLines (m : BoundMethod) : List String :=
  "/**"
    :: m.parameters.map (fun p => "* @param " ++ p.name ++ " Transpiled from " ++ p.display)
    ++ ["* @returns Transpiled from " ++ m.returnDisplay, "*/"]

/-- The lines of a member in an exported type. -/
def memberLines (emitDocs : Bool) (m : BoundMethod) : List Line :=
  ((if emitDocs then docLines m else []) ++ [memberLine m]).map (Line.mk 1)

/-- The lines of the type that is exported for a contract. -/
def typeLines (emitDocs : Bool) (c : BoundContract) : List Line :=
  ⟨0, "export type " ++ c.name ++ " = \x7b"⟩
    :: (c.methods.flatMap (memberLines emitDocs) ++ [⟨0, "\x7d"⟩, .empty])

/-- The lines of an interface file. -/
def fileLines (emitDocs : Bool) (imports : List ImportLine) (cs : List BoundContract) : List Line :=
  topLines imports ++ .empty :: cs.flatMap (typeLines emitDocs)

/-! ## Proxies -/

/-- The modifier of an accessor and the function that it calls, by the shape of the call. -/
def transport : CallShape → String × String
  | .unary => ("async ", "await this.connection.invoke")
  | .serverStream => ("", "this.connection.stream")
  | .clientStream => ("async ", "await this.connection.send")

/-- The arguments that an accessor passes to the transport. -/
def argumentText (m : BoundMethod) : String :=
  ", ".intercalate (("\"" ++ m.wireName ++ "\"") :: m.parameters.map (·.name))

/-- The lines of an accessor: it passes the wire name and the arguments to the transport. -/
def accessorLines (m : BoundMethod) : List Line :=
  [.empty,
   ⟨1, "public readonly " ++ m.localName ++ " = " ++ (transport m.shape).1 ++ "(" ++ parameterText m
      ++ "): " ++ m.returnText ++ " => \x7b"⟩,
   ⟨2, "return " ++ (transport m.shape).2 ++ "(" ++ argumentText m ++ ");"⟩,
   ⟨1, "\x7d"⟩]

/-- The lines of the class that makes proxies of a hub. -/
def factoryLines (hub : BoundContract) : List Line :=
  [⟨0, "class " ++ hub.name ++ "_HubProxyFactory implements HubProxyFactory<" ++ hub.name
      ++ "> \x7b"⟩,
   ⟨1, "public static Instance = new " ++ hub.name ++ "_HubProxyFactory();"⟩,
   .empty,
   ⟨1, "private constructor() \x7b"⟩,
   ⟨1, "\x7d"⟩,
   .empty,
   ⟨1, "public readonly createHubProxy = (connection: HubConnection): " ++ hub.name ++ " => \x7b"⟩,
   ⟨2, "return new " ++ hub.name ++ "_HubProxy(connection);"⟩,
   ⟨1, "\x7d"⟩,
   ⟨0, "\x7d"⟩,
   .empty]

/-- The lines of the proxy class of a hub. -/
def classLines (hub : BoundContract) : List Line :=
  ⟨0, "class " ++ hub.name ++ "_HubProxy implements " ++ hub.name ++ " \x7b"⟩
    :: .empty
    :: ⟨1, "public constructor(private connection: HubConnection) \x7b"⟩
    :: ⟨1, "\x7d"⟩
    :: (hub.methods.flatMap accessorLines ++ [⟨0, "\x7d"⟩, .empty])

/-! ## Binders -/

/-- The constant that holds the listener of a method. -/
def handlerName (m : BoundMethod) : String := "__" ++ m.localName

/-- The line that defines the listener of a method. -/
def handlerLine (m : BoundMethod) : String :=
  match m.parameters with
  | [] => "const " ++ handlerName m ++ " = () => receiver." ++ m.localName ++ "();"
  | ps => "const " ++ handlerName m ++ " = (...args: [" ++ ", ".intercalate (ps.map (·.text))
      ++ "]) => receiver." ++ m.localName ++ "(...args);"

/-- The line that registers the listener of a method, under the wire name. -/
def registrationLine (m : BoundMethod) : String :=
  "connection.on(\"" ++ m.wireName ++ "\", " ++ handlerName m ++ ");"

/-- The entry of a method in the list of what was registered. There is a comma after each but the
last. -/
def entryLine (count k : Nat) (m : BoundMethod) : String :=
  "\x7b methodName: \"" ++ m.wireName ++ "\", method: " ++ handlerName m ++ " \x7d"
    ++ if k + 1 < count then "," else ""

/-- The lines in the body of a register function. -/
def registerLines (ms : List BoundMethod) : List Line :=
  .empty :: (ms.map (fun m => Line.mk 2 (handlerLine m))
    ++ .empty :: (ms.map (fun m => Line.mk 2 (registrationLine m))
    ++ .empty :: ⟨2, "const methodList: ReceiverMethod[] = ["⟩
    :: (ms.mapIdx (fun k m => Line.mk 3 (entryLine ms.length k m))
    ++ [⟨2, "];"⟩, .empty,
        ⟨2, "return new ReceiverMethodSubscription(connection, methodList);"⟩])))

/-- The lines of the binder class of a receiver. -/
def binderLines (r : BoundContract) : List Line :=
  ⟨0, "class " ++ r.name ++ "_Binder implements ReceiverRegister<" ++ r.name ++ "> \x7b"⟩
    :: .empty
    :: ⟨1, "public static Instance = new " ++ r.name ++ "_Binder();"⟩
    :: .empty
    :: ⟨1, "private constructor() \x7b"⟩
    :: ⟨1, "\x7d"⟩
    :: .empty
    :: ⟨1, "public readonly register = (connection: HubConnection, receiver: " ++ r.name
        ++ "): Disposable => \x7b"⟩
    :: (registerLines r.methods ++ [⟨1, "\x7d"⟩, ⟨0, "\x7d"⟩, .empty])

/-! ## Look-ups -/

/-- The contracts of a role. -/
def contractsOf (b : Bindings) : Role → List BoundContract
  | .hub => b.hubs
  | .receiver => b.receivers

/-- The class whose instance the look-up of a role returns for an interface. -/
def targetClass (role : Role) (c : BoundContract) : String :=
  match role with
  | .hub => c.name ++ "_HubProxyFactory"
  | .receiver => c.name ++ "_Binder"

/-- The type of the look-up function of a role, its name, its parameter, and the type of what it
finds. -/
structure LookUpNames where
  type : String
  function : String
  key : String
  result : String

def lookUpNames : Role → LookUpNames
  | .hub => ⟨"HubProxyFactoryProvider", "getHubProxyFactory", "hubType", "HubProxyFactory"⟩
  | .receiver =>
    ⟨"ReceiverRegisterProvider", "getReceiverRegister", "receiverType", "ReceiverRegister"⟩

/-- The test of a look-up function for one interface. -/
def testLines (role : Role) (c : BoundContract) : List Line :=
  [⟨1, "if(" ++ (lookUpNames role).key ++ " === \"" ++ c.name ++ "\") \x7b"⟩,
   ⟨2, "return " ++ targetClass role c ++ ".Instance;"⟩,
   ⟨1, "\x7d"⟩]

/-- The lines of the look-up function of a role and of its type. -/
def lookUpLines (role : Role) (cs : List BoundContract) : List Line :=
  let n := lookUpNames role
  ⟨0, "export type " ++ n.type ++ " = \x7b"⟩
    :: (cs.map (fun c => Line.mk 1 ("(" ++ n.key ++ ": \"" ++ c.name ++ "\"): " ++ n.result ++ "<"
      ++ c.name ++ ">;"))
    ++ ⟨0, "\x7d"⟩
    :: .empty
    :: ⟨0, "export const " ++ n.function ++ " = ((" ++ n.key ++ ": string) => \x7b"⟩
    :: (cs.flatMap (testLines role)
    ++ [⟨0, "\x7d) as " ++ n.type ++ ";"⟩, .empty]))

/-! ## The index file -/

/-- The class of subscriptions with its function `dispose`. -/
def subscriptionLines : List Line :=
  [⟨0, "class ReceiverMethodSubscription implements Disposable \x7b"⟩,
   .empty,
   ⟨1, "public constructor("⟩,
   ⟨2, "private connection: HubConnection,"⟩,
   ⟨2, "private receiverMethod: ReceiverMethod[]) \x7b"⟩,
   ⟨1, "\x7d"⟩,
   .empty,
   ⟨1, "public readonly dispose = () => \x7b"⟩,
   ⟨2, "for (const it of this.receiverMethod) \x7b"⟩,
   ⟨3, "this.connection.off(it.methodName, it.method);"⟩,
   ⟨2, "\x7d"⟩,
   ⟨2, "this.receiverMethod = [];"⟩,
   ⟨1, "\x7d"⟩,
   ⟨0, "\x7d"⟩]

/-- The declarations that every index file has. -/
def componentLines : List Line :=
  [⟨0, "// components"⟩,
   .empty,
   ⟨0, "export type Disposable = \x7b"⟩,
   ⟨1, "dispose(): void;"⟩,
   ⟨0, "\x7d"⟩,
   .empty,
   ⟨0, "export type HubProxyFactory<T> = \x7b"⟩,
   ⟨1, "createHubProxy(connection: HubConnection): T;"⟩,
   ⟨0, "\x7d"⟩,
   .empty,
   ⟨0, "export type ReceiverRegister<T> = \x7b"⟩,
   ⟨1, "register(connection: HubConnection, receiver: T): Disposable;"⟩,
   ⟨0, "\x7d"⟩,
   .empty,
   ⟨0, "type ReceiverMethod = \x7b"⟩,
   ⟨1, "methodName: string,"⟩,
   ⟨1, "method: (...args: any[]) => void"⟩,
   ⟨0, "\x7d"⟩,
   .empty] ++ subscriptionLines

/-- The lines of the index file. -/
def indexLines (imports : List ImportLine) (hubs receivers : List BoundContract) : List Line :=
  topLines imports ++ [.empty, .empty]
    ++ componentLines
    ++ [.empty, ⟨0, "// API"⟩, .empty]
    ++ lookUpLines .hub hubs
    ++ lookUpLines .receiver receivers
    ++ [⟨0, "// HubProxy"⟩, .empty]
    ++ hubs.flatMap (fun hub => factoryLines hub ++ classLines hub)
    ++ [⟨0, "// Receiver"⟩, .empty]
    ++ receivers.flatMap binderLines

/-! ## Line breaks of lines -/

section Breaks

variable (e : LineEnding)

private theorem parameterText_withBreaks (m : BoundMethod) :
    withBreaks e (parameterText m) = parameterText (m.withBreaks e) := by
  simp (disch := decide) [parameterText, BoundMethod.withBreaks, BoundParameter.withBreaks,
    Function.comp_def, String.append_assoc]

private theorem memberLine_withBreaks (m : BoundMethod) :
    ended e (memberLine m) = memberLine (m.withBreaks e) := by
  simp (disch := decide) [memberLine, String.append_assoc, parameterText_withBreaks]
  simp [BoundMethod.withBreaks]

private theorem docLines_withBreaks (m : BoundMethod) :
    (docLines m).map (ended e) = docLines (m.withBreaks e) := by
  simp (disch := decide) [docLines, BoundMethod.withBreaks, BoundParameter.withBreaks,
    Function.comp_def, String.append_assoc]

private theorem memberLines_withBreaks (emitDocs : Bool) (m : BoundMethod) :
    (memberLines emitDocs m).map (·.ended e) = memberLines emitDocs (m.withBreaks e) := by
  have hlines : ∀ ss : List String,
      (ss.map (Line.mk 1)).map (·.ended e) = (ss.map (ended e)).map (Line.mk 1) := by
    simp [Function.comp_def]
  rw [memberLines, hlines, List.map_append, List.map_singleton, memberLine_withBreaks, memberLines]
  cases emitDocs with
  | true => rw [if_pos rfl, if_pos rfl, docLines_withBreaks]
  | false => rfl

private theorem typeLines_withBreaks (emitDocs : Bool) (c : BoundContract) :
    (typeLines emitDocs c).map (·.ended e) = typeLines emitDocs (c.withBreaks e) := by
  simp (disch := decide) [typeLines, BoundContract.withBreaks, List.map_flatMap,
    List.flatMap_map, memberLines_withBreaks, String.append_assoc]

private theorem topLines_withBreaks (imports : List ImportLine) :
    (topLines imports).map (·.ended e) = topLines (imports.map (·.withBreaks e)) := by
  simp (disch := decide) [topLines, importText, ImportLine.withBreaks, Function.comp_def,
    String.append_assoc]

private theorem fileLines_withBreaks (emitDocs : Bool) (imports : List ImportLine)
    (cs : List BoundContract) : (fileLines emitDocs imports cs).map (·.ended e) =
      fileLines emitDocs (imports.map (·.withBreaks e)) (cs.map (·.withBreaks e)) := by
  simp [fileLines, topLines_withBreaks, List.map_flatMap, List.flatMap_map, typeLines_withBreaks]

private theorem argumentText_withBreaks (m : BoundMethod) :
    withBreaks e (argumentText m) = argumentText (m.withBreaks e) := by
  have hquoted : withBreaks e ("\"" ++ m.wireName ++ "\"") =
      "\"" ++ withBreaks e m.wireName ++ "\"" := by
    simp (disch := decide) [String.append_assoc]
  rw [argumentText, withBreaks_intercalate (by decide), List.map_cons, hquoted, List.map_map,
    argumentText, BoundMethod.withBreaks, List.map_map]
  rfl

private theorem accessorLines_withBreaks (m : BoundMethod) :
    (accessorLines m).map (·.ended e) = accessorLines (m.withBreaks e) := by
  have hshape : (m.withBreaks e).shape = m.shape := rfl
  cases h : m.shape <;>
  simp (disch := decide) [accessorLines, transport, hshape, h, String.append_assoc,
    parameterText_withBreaks, argumentText_withBreaks]
  all_goals simp [BoundMethod.withBreaks]

private theorem factoryLines_withBreaks (hub : BoundContract) :
    (factoryLines hub).map (·.ended e) = factoryLines (hub.withBreaks e) := by
  simp (disch := decide) [factoryLines, BoundContract.withBreaks, String.append_assoc]

private theorem classLines_withBreaks (hub : BoundContract) :
    (classLines hub).map (·.ended e) = classLines (hub.withBreaks e) := by
  simp (disch := decide) [classLines, BoundContract.withBreaks, String.append_assoc,
    List.map_flatMap, List.flatMap_map, accessorLines_withBreaks]

private theorem handlerLine_withBreaks (m : BoundMethod) :
    ended e (handlerLine m) = handlerLine (m.withBreaks e) := by
  have hparameters : (m.withBreaks e).parameters = m.parameters.map (·.withBreaks e) := rfl
  cases h : m.parameters with
  | nil =>
    simp (disch := decide) [handlerLine, handlerName, hparameters, h, String.append_assoc]
    simp [BoundMethod.withBreaks]
  | cons p ps =>
    simp (disch := decide) [handlerLine, handlerName, hparameters, h, String.append_assoc,
      Function.comp_def, BoundParameter.withBreaks]
    simp [BoundMethod.withBreaks]

private theorem registrationLine_withBreaks (m : BoundMethod) :
    ended e (registrationLine m) = registrationLine (m.withBreaks e) := by
  unfold registrationLine
  simp (disch := decide) [handlerName, BoundMethod.withBreaks, String.append_assoc]

private theorem entryLine_withBreaks (count k : Nat) (m : BoundMethod) :
    ended e (entryLine count k m) = entryLine count k (m.withBreaks e) := by
  unfold entryLine
  by_cases h : k + 1 < count <;>
    simp (disch := decide) [handlerName, BoundMethod.withBreaks, h, String.append_assoc]

private theorem registerLines_withBreaks (ms : List BoundMethod) :
    (registerLines ms).map (·.ended e) = registerLines (ms.map (·.withBreaks e)) := by
  have hentries : (ms.mapIdx fun k m => Line.mk 3 (entryLine ms.length k m)).map (·.ended e) =
      (ms.map (·.withBreaks e)).mapIdx fun k m =>
        Line.mk 3 (entryLine (ms.map (·.withBreaks e)).length k m) := by
    refine List.ext_getElem (by simp) fun k _ _ => ?_
    simp [entryLine_withBreaks]
  simp (disch := decide) [registerLines, handlerLine_withBreaks, registrationLine_withBreaks,
    hentries, Function.comp_def]

private theorem binderLines_withBreaks (r : BoundContract) :
    (binderLines r).map (·.ended e) = binderLines (r.withBreaks e) := by
  simp (disch := decide) [binderLines, BoundContract.withBreaks, registerLines_withBreaks,
    String.append_assoc]

private theorem lookUpLines_withBreaks (role : Role) (cs : List BoundContract) :
    (lookUpLines role cs).map (·.ended e) = lookUpLines role (cs.map (·.withBreaks e)) := by
  cases role <;>
  simp (disch := decide) [lookUpLines, lookUpNames, testLines, targetClass,
    BoundContract.withBreaks, List.map_flatMap, List.flatMap_map, Function.comp_def,
    String.append_assoc]

private theorem componentLines_withBreaks : componentLines.map (·.ended e) = componentLines := by
  simp (disch := decide) [componentLines, subscriptionLines]

private theorem indexLines_withBreaks (imports : List ImportLine)
    (hubs receivers : List BoundContract) : (indexLines imports hubs receivers).map (·.ended e) =
      indexLines (imports.map (·.withBreaks e)) (hubs.map (·.withBreaks e))
        (receivers.map (·.withBreaks e)) := by
  simp (disch := decide) [indexLines, topLines_withBreaks, componentLines_withBreaks,
    lookUpLines_withBreaks, List.map_flatMap, List.flatMap_map, factoryLines_withBreaks,
    classLines_withBreaks, binderLines_withBreaks]

end Breaks

/-! ## Lines of layouts -/

section Layouts

private theorem isBlank_memberLine (m : BoundMethod) : isBlank (memberLine m) = false :=
  isBlank_append_visible (by decide)

private theorem isBlank_importText (i : ImportLine) : isBlank (importText i) = false :=
  isBlank_append_visible (by decide)

private theorem top_prints (imports : List ImportLine) :
    Prints 0 (heading.map .line ++ imports.map (fun i => .line i.text)) (topLines imports) := by
  have hheading : Prints 0 (heading.map .line)
      [⟨0, "/* THIS (.ts) FILE IS GENERATED BY hubgen */"⟩, ⟨0, "/* eslint-disable */"⟩,
        ⟨0, "/* tslint:disable */"⟩] :=
    .line (by decide) (.line (by decide) (.line (by decide) .nil))
  exact hheading.append (.map_line isBlank_importText imports)

private theorem member_prints (emitDocs : Bool) (m : BoundMethod) :
    Prints 1 ((Member.ofMethod m).steps emitDocs) (memberLines emitDocs m) := by
  have hmember : Prints 1 [.line (memberLine m)] [⟨1, memberLine m⟩] :=
    .line (isBlank_memberLine m) .nil
  cases emitDocs with
  | false => exact hmember
  | true =>
    have hdocs : (Member.ofMethod m).docLines = docLines m := by
      simp [Member.docLines, docLines, Member.ofMethod]
    have hvisible : ∀ s ∈ docLines m, isBlank s = false := by
      have hparameter : ∀ p : BoundParameter,
          isBlank ("* @param " ++ p.name ++ " Transpiled from " ++ p.display) = false := fun p => by
        rw [String.append_assoc, String.append_assoc]
        exact isBlank_visible_append (by decide)
      simp only [docLines, List.cons_append, List.forall_mem_cons, List.forall_mem_append,
        List.forall_mem_map]
      exact ⟨by decide, fun p _ => hparameter p, isBlank_visible_append (by decide), by decide⟩
    have hsteps := (Prints.lines (n := 1) hvisible).append hmember
    rw [Member.steps, if_pos rfl, hdocs, memberLines, if_pos rfl, List.map_append]
    exact hsteps

private theorem type_prints (emitDocs : Bool) (c : BoundContract) :
    Prints 0 ((ExportedType.ofContract c).steps emitDocs) (typeLines emitDocs c) := by
  have hmembers : Prints 1 ((ExportedType.ofContract c).members.flatMap (Member.steps emitDocs))
      (c.methods.flatMap (memberLines emitDocs)) := by
    rw [ExportedType.ofContract, List.flatMap_map]
    exact .flatMap (member_prints emitDocs) c.methods
  refine (Prints.block hmembers (.blank .nil)).congr ?_
  simp [typeLines, ExportedType.ofContract, String.append_assoc]

theorem file_prints (emitDocs : Bool) (transportModule module : String)
    (cs : List BoundContract) :
    Prints 0 ((InterfaceFile.ofContracts transportModule module cs).steps emitDocs)
      (fileLines emitDocs (InterfaceFile.ofContracts transportModule module cs).imports cs) := by
  have htypes : Prints 0
      ((InterfaceFile.ofContracts transportModule module cs).types.flatMap
        (ExportedType.steps emitDocs)) (cs.flatMap (typeLines emitDocs)) := by
    rw [InterfaceFile.ofContracts, List.flatMap_map]
    exact .flatMap (type_prints emitDocs) cs
  rw [InterfaceFile.steps, List.append_assoc]
  exact (top_prints _).append (.blank htypes)

private theorem accessor_prints (m : BoundMethod) :
    Prints 1 (Accessor.ofMethod m).steps (accessorLines m) := by
  refine (Prints.blank (.block (.line (isBlank_append_visible (by decide)) .nil) .nil)).congr ?_
  cases h : m.shape <;>
    simp [accessorLines, Accessor.ofMethod, Signature.ofMethod, transport, h, Primitive.ofShape,
      Primitive.modifier, Primitive.function, BoundMethod.parameterList, BoundMethod.argumentNames,
      parameterText, argumentText, inQuotes, String.append_assoc]

private theorem proxy_prints (hub : BoundContract) :
    Prints 0 (HubProxy.ofContract hub).steps (factoryLines hub ++ classLines hub) := by
  have haccessors : Prints 1 ((HubProxy.ofContract hub).accessors.flatMap Accessor.steps)
      (hub.methods.flatMap accessorLines) := by
    rw [HubProxy.ofContract, List.flatMap_map]
    exact .flatMap accessor_prints hub.methods
  have hclass : Prints 1
      ([.blank, .line "public constructor(private connection: HubConnection) \x7b", .line "\x7d"]
        ++ (HubProxy.ofContract hub).accessors.flatMap Accessor.steps)
      (.empty :: ⟨1, "public constructor(private connection: HubConnection) \x7b"⟩ :: ⟨1, "\x7d"⟩
        :: hub.methods.flatMap accessorLines) :=
    .blank (.line (by decide) (.line (by decide) haccessors))
  refine (Prints.block (.line (isBlank_append_visible (by decide)) (.blank (.line (by decide)
    (.line (by decide) (.blank (.block (.line (isBlank_append_visible (by decide)) .nil)
      .nil)))))) (.blank (.block hclass (.blank .nil)))).congr ?_
  simp [factoryLines, classLines, HubProxy.ofContract, HubProxy.factoryClass, HubProxy.proxyClass,
    String.append_assoc]

private theorem definition_ofMethod (m : BoundMethod) :
    (Listener.ofMethod m).definition = handlerLine m := by
  cases h : m.parameters <;>
    simp [Listener.definition, Listener.ofMethod, Listener.handler, handlerLine, handlerName, h]

private theorem isBlank_handlerLine (m : BoundMethod) : isBlank (handlerLine m) = false := by
  unfold handlerLine
  cases m.parameters with
  | nil => exact isBlank_append_visible (by decide)
  | cons p ps => exact isBlank_append_visible (by decide)

private theorem registration_ofMethod (m : BoundMethod) :
    (Listener.ofMethod m).registration = registrationLine m := by
  unfold Listener.registration registrationLine
  rw [← String.toList_inj]
  simp [Listener.ofMethod, Listener.handler, handlerName, inQuotes]

private theorem isBlank_registrationLine (m : BoundMethod) :
    isBlank (registrationLine m) = false := by
  unfold registrationLine
  exact isBlank_append_visible (by decide)

private theorem entryLine_succ (count k : Nat) (m : BoundMethod) :
    entryLine (count + 1) (k + 1) m = entryLine count k m := by
  unfold entryLine
  simp only [Nat.add_lt_add_iff_right]

private theorem isBlank_entryLine (count k : Nat) (m : BoundMethod) :
    isBlank (entryLine count k m) = false := by
  unfold entryLine
  exact isBlank_visible_append (isBlank_append_visible (by decide))

private theorem entryLines_ofMethods (ms : List BoundMethod) :
    entryLines (ms.map .ofMethod) = ms.mapIdx (entryLine ms.length) := by
  have hentry : ∀ m : BoundMethod, (Listener.ofMethod m).entry =
      "\x7b methodName: \"" ++ m.wireName ++ "\", method: " ++ handlerName m ++ " \x7d" := by
    intro m
    unfold Listener.entry
    rw [← String.toList_inj]
    simp [Listener.ofMethod, Listener.handler, handlerName, inQuotes]
  induction ms with
  | nil => rfl
  | cons m ms ih =>
    cases ms with
    | nil =>
      unfold entryLine
      simp [entryLines, hentry]
    | cons m' ms =>
      have hfirst : (Listener.ofMethod m).entry ++ "," = entryLine (m :: m' :: ms).length 0 m := by
        unfold entryLine
        rw [hentry, if_pos (by simp)]
      have hrest : (fun k => entryLine (m :: m' :: ms).length (k + 1)) =
          entryLine (m' :: ms).length := by
        funext k m
        exact entryLine_succ _ k m
      rw [List.map_cons, List.map_cons, entryLines, ← List.map_cons, ih, hfirst,
        List.mapIdx_cons (l := m' :: ms), hrest]
      simp

private theorem register_prints (r : BoundContract) :
    Prints 2 (ReceiverBinder.ofContract r).registerSteps (registerLines r.methods) := by
  have hlisteners : Prints 2
      ((ReceiverBinder.ofContract r).listeners.map fun l => .line l.definition)
      (r.methods.map fun m => ⟨2, handlerLine m⟩) := by
    simpa [ReceiverBinder.ofContract, definition_ofMethod, Function.comp_def] using
      Prints.map_line (n := 2) isBlank_handlerLine r.methods
  have hregistrations : Prints 2
      ((ReceiverBinder.ofContract r).listeners.map fun l => .line l.registration)
      (r.methods.map fun m => ⟨2, registrationLine m⟩) := by
    simpa [ReceiverBinder.ofContract, registration_ofMethod, Function.comp_def] using
      Prints.map_line (n := 2) isBlank_registrationLine r.methods
  have hentries : Prints 3
      ((entryLines (ReceiverBinder.ofContract r).listeners).map .line)
      (r.methods.mapIdx fun k m => ⟨3, entryLine r.methods.length k m⟩) := by
    rw [ReceiverBinder.ofContract, entryLines_ofMethods]
    refine (Prints.lines ?_).congr ?_
    · intro s hs
      obtain ⟨k, _, rfl⟩ := List.mem_mapIdx.mp hs
      exact isBlank_entryLine _ _ _
    · refine List.ext_getElem (by simp) fun k _ _ => ?_
      simp
  rw [ReceiverBinder.registerSteps]
  simp only [List.append_assoc, List.cons_append, List.nil_append]
  exact .blank (hlisteners.append (.blank (hregistrations.append (.blank (.line (by decide)
    (.indented hentries (.line (by decide) (.blank (.line (by decide) .nil)))))))))

private theorem binder_prints (r : BoundContract) :
    Prints 0 (ReceiverBinder.ofContract r).steps (binderLines r) := by
  refine (Prints.block (.blank (.line (isBlank_append_visible (by decide)) (.blank (.line
    (by decide) (.line (by decide) (.blank (.block (register_prints r) .nil)))))))
      (.blank .nil)).congr ?_
  simp [binderLines, ReceiverBinder.ofContract, ReceiverBinder.binderClass, String.append_assoc]

private theorem signatures_print (role : Role) (cs : List BoundContract) :
    Prints 1
      (cs.map fun c => .line ("(" ++ (lookUpNames role).key ++ ": " ++ inQuotes c.name ++ "): "
        ++ (lookUpNames role).result ++ "<" ++ c.name ++ ">;"))
      (cs.map fun c => ⟨1, "(" ++ (lookUpNames role).key ++ ": \"" ++ c.name ++ "\"): "
        ++ (lookUpNames role).result ++ "<" ++ c.name ++ ">;"⟩) := by
  have hquotes : ∀ c : BoundContract, "(" ++ (lookUpNames role).key ++ ": " ++ inQuotes c.name
      ++ "): " ++ (lookUpNames role).result ++ "<" ++ c.name ++ ">;" =
        "(" ++ (lookUpNames role).key ++ ": \"" ++ c.name ++ "\"): " ++ (lookUpNames role).result
          ++ "<" ++ c.name ++ ">;" := fun c => by
    rw [← String.toList_inj]
    simp [inQuotes]
  simp only [hquotes]
  exact .map_line (fun c => isBlank_append_visible (by decide)) cs

private theorem tests_print (role : Role) (cs : List BoundContract) :
    Prints 1
      (cs.map fun c => .block ("if(" ++ (lookUpNames role).key ++ " === " ++ inQuotes c.name
        ++ ")") [.line ("return " ++ targetClass role c ++ ".Instance;")])
      (cs.flatMap (testLines role)) := by
  have hquotes : ∀ c : BoundContract,
      "if(" ++ (lookUpNames role).key ++ " === " ++ inQuotes c.name ++ ")" ++ " \x7b" =
        "if(" ++ (lookUpNames role).key ++ " === \"" ++ c.name ++ "\") \x7b" := fun c => by
    rw [← String.toList_inj]
    simp [inQuotes]
  rw [List.map_eq_flatMap]
  refine .flatMap (fun c => ?_) cs
  rw [testLines, ← hquotes]
  exact .block (.line (isBlank_append_visible (by decide)) .nil) .nil

private theorem provider_prints (role : Role) (cs : List BoundContract) :
    Prints 0 (Provider.steps
      { type := (lookUpNames role).type
        function := (lookUpNames role).function
        key := (lookUpNames role).key
        result := (lookUpNames role).result
        entries := cs.map fun c => (c.name, targetClass role c) }) (lookUpLines role cs) := by
  simp only [Provider.steps, List.map_map, Function.comp_def, List.cons_append, List.nil_append]
  refine Prints.congr (.block (signatures_print role cs) (.blank (.line
    (isBlank_append_visible (by decide)) (.indented (tests_print role cs)
      (.line (isBlank_append_visible (by decide)) (.blank .nil)))))) ?_
  simp [lookUpLines, String.append_assoc]

/-- The line of a template for a line on a level. -/
def templateLine (l : Line) : String := spaces (4 * l.level) ++ l.text

private theorem levels_print (n k : Nat) {s : String} (hs : isBlank s = false) :
    Prints n (List.replicate k .indent ++ [.line s] ++ List.replicate k .dedent) [⟨n + k, s⟩] := by
  induction k generalizing n with
  | zero => exact .line hs .nil
  | succ k ih =>
    have hsteps := Prints.indented (ih (n + 1)) .nil
    rw [Nat.add_right_comm, Nat.add_assoc] at hsteps
    rw [List.replicate_succ, List.replicate_succ']
    simpa using hsteps

private theorem template_prints {l : Line} (hvisible : isBlank l.text = false)
    (hfirst : l.text.toList.head? ≠ some ' ') : Prints 0 (templateSteps (templateLine l)) [l] := by
  have hdrop : (templateLine l).toList.dropWhile (· = ' ') = l.text.toList := by
    rw [templateLine, spaces, String.toList_append, String.toList_ofList,
      List.dropWhile_append_of_pos (by simp)]
    cases h : l.text.toList with
    | nil => rfl
    | cons c cs =>
      rw [h] at hfirst
      have hc : c ≠ ' ' := fun e => hfirst (congrArg some e)
      simp [hc]
  have hdepth : ((templateLine l).length - l.text.length) / 4 = l.level := by
    simp [templateLine, spaces, ← String.length_toList]
  have hne : l.text.isEmpty = false := by
    rw [Bool.eq_false_iff]
    intro h
    rw [String.isEmpty_iff] at h
    rw [h] at hvisible
    cases hvisible
  rw [templateSteps, hdrop, String.ofList_toList, hdepth, hne]
  simpa using levels_print 0 l.level hvisible

private theorem templates_print {ls : List Line}
    (h : ∀ l ∈ ls, l = .empty ∨ isBlank l.text = false ∧ l.text.toList.head? ≠ some ' ') :
    Prints 0 ((ls.map templateLine).flatMap templateSteps) ls := by
  induction ls with
  | nil => exact .nil
  | cons l ls ih =>
    obtain ⟨hl, hls⟩ := List.forall_mem_cons.mp h
    have hline : Prints 0 (templateSteps (templateLine l)) [l] := by
      rcases hl with rfl | ⟨hvisible, hfirst⟩
      · exact .blank .nil
      · exact template_prints hvisible hfirst
    exact hline.append (ih hls)

private theorem components_print : Prints 0 componentSteps (componentLines ++ [.empty]) := by
  have hcomponents : components = componentLines.map templateLine := by decide +kernel
  rw [componentSteps, hcomponents]
  exact (templates_print (by decide +kernel)).append (.blank .nil)

theorem index_prints (transportModule : String) (hubs receivers : List BoundContract) :
    Prints 0 (IndexFile.ofContracts transportModule hubs receivers).steps
      (indexLines (IndexFile.ofContracts transportModule hubs receivers).imports hubs
        receivers) := by
  have hhubs : Prints 0 ((hubs.map HubProxy.ofContract).flatMap HubProxy.steps)
      (hubs.flatMap fun hub => factoryLines hub ++ classLines hub) := by
    rw [List.flatMap_map]
    exact .flatMap proxy_prints hubs
  have hreceivers : Prints 0
      ((receivers.map ReceiverBinder.ofContract).flatMap ReceiverBinder.steps)
      (receivers.flatMap binderLines) := by
    rw [List.flatMap_map]
    exact .flatMap binder_prints receivers
  have hfactories : Prints 0 (factoryProvider (hubs.map .ofContract)).steps
      (lookUpLines .hub hubs) := by
    have h := provider_prints .hub hubs
    rw [factoryProvider, List.map_map]
    exact h
  have hbinders : Prints 0 (binderProvider (receivers.map .ofContract)).steps
      (lookUpLines .receiver receivers) := by
    have h := provider_prints .receiver receivers
    rw [binderProvider, List.map_map]
    exact h
  have hsections := components_print.append <| Prints.line (s := "// API") (by decide) <| .blank <|
    hfactories.append <| hbinders.append <| .line (s := "// HubProxy") (by decide) <| .blank <|
    hhubs.append <| .line (s := "// Receiver") (by decide) <| .blank hreceivers
  have hall := (top_prints (IndexFile.ofContracts transportModule hubs receivers).imports).append
    (.blank (.blank hsections))
  rw [IndexFile.steps, indexLines]
  simp only [List.append_assoc, List.cons_append, List.nil_append] at hall ⊢
  exact hall

end Layouts

/-! ## Files of a run -/

/-- Lines as a text in the layout of the settings. -/
def pageOf (s : Settings) (ls : List Line) : String :=
  page (spaces s.output.indentWidth) s.output.lineEnding ls

private theorem renderSteps_eq_pageOf (s : Settings) {steps : List Step} {ls : List Line}
    (h : Prints 0 steps ls) :
    renderSteps s steps = pageOf s (ls.map (·.ended s.output.lineEnding)) := by
  have hunit : isUnbroken (spaces s.output.indentWidth) = true := by
    rw [isUnbroken_iff]
    intro c hc
    rw [spaces, String.toList_ofList] at hc
    rw [List.eq_of_mem_replicate hc]
    decide
  exact h.normalizeBreaks_layout hunit _

variable (x : Generator) (b : Bindings)

def files : List InterfaceFile :=
  InterfaceFile.all x.settings.output.transportModule (b.hubs ++ b.receivers)

def index : IndexFile :=
  IndexFile.ofContracts x.settings.output.transportModule b.hubs b.receivers

/-- A contract as the files of a run show it. -/
def shown (c : BoundContract) : BoundContract := c.withBreaks x.settings.output.lineEnding

theorem shown_localNames (c : BoundContract) : (shown x c).methods.map (·.localName) =
    (c.methods.map (·.localName)).map (withBreaks x.settings.output.lineEnding) := by
  simp [shown, BoundContract.withBreaks, BoundMethod.withBreaks]

theorem shown_wireNames (c : BoundContract) : (shown x c).methods.map (·.wireName) =
    (c.methods.map (·.wireName)).map (withBreaks x.settings.output.lineEnding) := by
  simp [shown, BoundContract.withBreaks, BoundMethod.withBreaks]

/-- Imports as the files of a run show them. -/
def shownImports (imports : List ImportLine) : List ImportLine :=
  imports.map (·.withBreaks x.settings.output.lineEnding)

/-- The lines of an interface file of a run. -/
def interfaceLines (f : InterfaceFile) : List Line :=
  fileLines x.settings.output.emitDocs (shownImports x f.imports)
    ((written (b.hubs ++ b.receivers) f.module).map (shown x))

/-- The lines of the index file of a run. -/
def aggregateLines : List Line :=
  indexLines (shownImports x (index x b).imports) (b.hubs.map (shown x))
    (b.receivers.map (shown x))

/-- The files of a run: their paths, and their lines as texts. -/
def sources : List SourceFile :=
  (files x b).map (fun f =>
      { path := x.settings.output.directory ++ "/" ++ (f.module ++ ".ts")
        content := pageOf x.settings (interfaceLines x b f) })
    ++ [{ path := x.settings.output.directory ++ "/" ++ "index.ts"
          content := pageOf x.settings (aggregateLines x b) }]

theorem emit_files : (emit x.settings b).files = sources x b := by
  have hinterfaces : interfaceSources x.settings (b.hubs ++ b.receivers) = (files x b).map fun f =>
      { path := x.settings.output.directory ++ "/" ++ (f.module ++ ".ts")
        content := pageOf x.settings (interfaceLines x b f) } := by
    refine List.map_congr_left fun f hf => ?_
    obtain ⟨module, _, rfl⟩ := mem_all.mp hf
    rw [InterfaceFile.toSource, renderSteps_eq_pageOf _ (file_prints _ _ _ _),
      fileLines_withBreaks]
    rfl
  have hindex : indexSource x.settings b.hubs b.receivers =
      { path := x.settings.output.directory ++ "/" ++ "index.ts"
        content := pageOf x.settings (aggregateLines x b) } := by
    rw [indexSource, IndexFile.toSource, renderSteps_eq_pageOf _ (index_prints _ _ _),
      indexLines_withBreaks]
    rfl
  rw [emit, hinterfaces, hindex, sources]

end Client

end HubBindings
