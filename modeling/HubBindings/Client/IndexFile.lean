import HubBindings.Client.InterfaceFile

/-!
The index file: shared component types, look-up of factories and binders by interface name, a proxy
class for each hub and a binder for each receiver. A proxy calls the transport with the declared
name of a method, by the primitive that its shape asks for.
-/

namespace HubBindings.Client

open Text (Step)

/-- A text in double quotes. -/
def inQuotes (s : String) : String := "\"" ++ s ++ "\""

/-! ## Proxies of hubs -/

/-- The ways to call the transport. -/
inductive Primitive where
  | invoke
  | stream
  | send
  deriving DecidableEq, Repr

/-- The primitive for a shape. -/
def Primitive.ofShape : CallShape → Primitive
  | .unary => invoke
  | .serverStream => stream
  | .clientStream => send

/-- What stands in front of the parameters of an accessor. -/
def Primitive.modifier : Primitive → String
  | invoke => "async "
  | stream => ""
  | send => "async "

/-- The function that an accessor calls. -/
def Primitive.function : Primitive → String
  | invoke => "await this.connection.invoke"
  | stream => "this.connection.stream"
  | send => "await this.connection.send"

/-- A member of a proxy that calls the transport. -/
structure Accessor where
  signature : Signature
  primitive : Primitive
  wireName : String
  arguments : List String
  deriving DecidableEq, Repr

/-- The accessor for a bound method. -/
def Accessor.ofMethod (m : BoundMethod) : Accessor :=
  { signature := .ofMethod m
    primitive := .ofShape m.shape
    wireName := m.wireName
    arguments := m.argumentNames }

/-- The layout of an accessor. -/
def Accessor.steps (a : Accessor) : List Step :=
  [.blank,
   .block ("public readonly " ++ a.signature.name ++ " = " ++ a.primitive.modifier ++ "("
      ++ a.signature.parameterList ++ "): " ++ a.signature.returns ++ " =>")
    [.line ("return " ++ a.primitive.function ++ "("
      ++ ", ".intercalate (inQuotes a.wireName :: a.arguments) ++ ");")]]

/-- The proxy of a hub. -/
structure HubProxy where
  name : String
  accessors : List Accessor
  deriving DecidableEq, Repr

/-- The proxy for a bound contract. -/
def HubProxy.ofContract (c : BoundContract) : HubProxy :=
  { name := c.name, accessors := c.methods.map .ofMethod }

/-- The class that makes proxies of a hub. -/
def HubProxy.factoryClass (h : HubProxy) : String := h.name ++ "_HubProxyFactory"

/-- The class of the proxy. -/
def HubProxy.proxyClass (h : HubProxy) : String := h.name ++ "_HubProxy"

/-- The layout of a factory and its proxy. -/
def HubProxy.steps (h : HubProxy) : List Step :=
  [.block ("class " ++ h.factoryClass ++ " implements HubProxyFactory<" ++ h.name ++ ">")
    [.line ("public static Instance = new " ++ h.factoryClass ++ "();"),
     .blank,
     .line "private constructor() \x7b",
     .line "\x7d",
     .blank,
     .block ("public readonly createHubProxy = (connection: HubConnection): " ++ h.name ++ " =>")
      [.line ("return new " ++ h.proxyClass ++ "(connection);")]],
   .blank,
   .block ("class " ++ h.proxyClass ++ " implements " ++ h.name)
    ([.blank,
      .line "public constructor(private connection: HubConnection) \x7b",
      .line "\x7d"]
      ++ h.accessors.flatMap Accessor.steps),
   .blank]

/-! ## Binders of receivers -/

/-- A listener that passes a message on to a member of the receiver. -/
structure Listener where
  wireName : String
  member : String
  argumentTypes : List String
  deriving DecidableEq, Repr

/-- The listener for a bound method. -/
def Listener.ofMethod (m : BoundMethod) : Listener :=
  { wireName := m.wireName
    member := m.localName
    argumentTypes := m.parameters.map (·.text) }

/-- The name of the constant that holds a listener. -/
def Listener.handler (l : Listener) : String := "__" ++ l.member

/-- The definition of a listener. -/
def Listener.definition (l : Listener) : String :=
  match l.argumentTypes with
  | [] => "const " ++ l.handler ++ " = () => receiver." ++ l.member ++ "();"
  | types => "const " ++ l.handler ++ " = (...args: [" ++ ", ".intercalate types
      ++ "]) => receiver." ++ l.member ++ "(...args);"

/-- The registration of a listener. -/
def Listener.registration (l : Listener) : String :=
  "connection.on(" ++ inQuotes l.wireName ++ ", " ++ l.handler ++ ");"

/-- The entry of a listener in the list of what was registered. -/
def Listener.entry (l : Listener) : String :=
  "\x7b methodName: " ++ inQuotes l.wireName ++ ", method: " ++ l.handler ++ " \x7d"

/-- The entries of listeners, with a comma after each but the last. -/
def entryLines : List Listener → List String
  | [] => []
  | [l] => [l.entry]
  | l :: rest => (l.entry ++ ",") :: entryLines rest

/-- The binder of a receiver. -/
structure ReceiverBinder where
  name : String
  listeners : List Listener
  deriving DecidableEq, Repr

/-- The binder for a bound contract. -/
def ReceiverBinder.ofContract (c : BoundContract) : ReceiverBinder :=
  { name := c.name, listeners := c.methods.map .ofMethod }

/-- The class of a binder. -/
def ReceiverBinder.binderClass (b : ReceiverBinder) : String := b.name ++ "_Binder"

/-- The layout of the function that registers the listeners. -/
def ReceiverBinder.registerSteps (b : ReceiverBinder) : List Step :=
  [.blank] ++ b.listeners.map (fun l => .line l.definition)
    ++ [.blank] ++ b.listeners.map (fun l => .line l.registration)
    ++ [.blank, .line "const methodList: ReceiverMethod[] = [", .indent]
    ++ (entryLines b.listeners).map .line
    ++ [.dedent, .line "];", .blank,
        .line "return new ReceiverMethodSubscription(connection, methodList);"]

/-- The layout of a binder. -/
def ReceiverBinder.steps (b : ReceiverBinder) : List Step :=
  [.block ("class " ++ b.binderClass ++ " implements ReceiverRegister<" ++ b.name ++ ">")
    [.blank,
     .line ("public static Instance = new " ++ b.binderClass ++ "();"),
     .blank,
     .line "private constructor() \x7b",
     .line "\x7d",
     .blank,
     .block ("public readonly register = (connection: HubConnection, receiver: " ++ b.name
        ++ "): Disposable =>")
      b.registerSteps],
   .blank]

/-! ## Look-up by name -/

/-- A function that finds an instance of a class by the name of an interface. -/
structure Provider where
  /-- Name of the type of the function. -/
  type : String
  function : String
  /-- Name of the parameter. -/
  key : String
  /-- Name of the type of what is found. -/
  result : String
  /-- Names of the interfaces with the classes for them. -/
  entries : List (String × String)
  deriving DecidableEq, Repr

/-- The class that the look-up finds for a name: that of the first entry with this name. -/
def Provider.find? (p : Provider) (name : String) : Option String := p.entries.lookup name

/-- The layout of a look-up function and its type. -/
def Provider.steps (p : Provider) : List Step :=
  [.block ("export type " ++ p.type ++ " =")
    (p.entries.map fun (name, _) =>
      .line ("(" ++ p.key ++ ": " ++ inQuotes name ++ "): " ++ p.result ++ "<" ++ name ++ ">;")),
   .blank,
   .line ("export const " ++ p.function ++ " = ((" ++ p.key ++ ": string) => \x7b"),
   .indent]
    ++ p.entries.map (fun (name, target) =>
      .block ("if(" ++ p.key ++ " === " ++ inQuotes name ++ ")")
        [.line ("return " ++ target ++ ".Instance;")])
    ++ [.dedent, .line ("\x7d) as " ++ p.type ++ ";"), .blank]

/-- The look-up of factories. -/
def factoryProvider (hubs : List HubProxy) : Provider :=
  { type := "HubProxyFactoryProvider"
    function := "getHubProxyFactory"
    key := "hubType"
    result := "HubProxyFactory"
    entries := hubs.map fun h => (h.name, h.factoryClass) }

/-- The look-up of binders. -/
def binderProvider (receivers : List ReceiverBinder) : Provider :=
  { type := "ReceiverRegisterProvider"
    function := "getReceiverRegister"
    key := "receiverType"
    result := "ReceiverRegister"
    entries := receivers.map fun b => (b.name, b.binderClass) }

/-! ## The file -/

/-- The declarations that every index file has, as lines with four spaces for a level. -/
def components : List String :=
  ["// components",
   "",
   "export type Disposable = \x7b",
   "    dispose(): void;",
   "\x7d",
   "",
   "export type HubProxyFactory<T> = \x7b",
   "    createHubProxy(connection: HubConnection): T;",
   "\x7d",
   "",
   "export type ReceiverRegister<T> = \x7b",
   "    register(connection: HubConnection, receiver: T): Disposable;",
   "\x7d",
   "",
   "type ReceiverMethod = \x7b",
   "    methodName: string,",
   "    method: (...args: any[]) => void",
   "\x7d",
   "",
   "class ReceiverMethodSubscription implements Disposable \x7b",
   "",
   "    public constructor(",
   "        private connection: HubConnection,",
   "        private receiverMethod: ReceiverMethod[]) \x7b",
   "    \x7d",
   "",
   "    public readonly dispose = () => \x7b",
   "        for (const it of this.receiverMethod) \x7b",
   "            this.connection.off(it.methodName, it.method);",
   "        \x7d",
   "        this.receiverMethod = [];",
   "    \x7d",
   "\x7d"]

/-- The layout of a line of a template. Every four spaces in front of it are a level, which has the
width of the other levels of the file. -/
def templateSteps (line : String) : List Step :=
  let text := String.ofList (line.toList.dropWhile (· = ' '))
  let depth := (line.length - text.length) / 4
  if text.isEmpty then [.blank]
  else List.replicate depth Step.indent ++ [Step.line text] ++ List.replicate depth Step.dedent

/-- The layout of the declarations that every index file has. -/
def componentSteps : List Step := components.flatMap templateSteps ++ [.blank]

/-- The content of the index file. -/
structure IndexFile where
  imports : List ImportLine
  hubs : List HubProxy
  receivers : List ReceiverBinder
  deriving DecidableEq, Repr

namespace IndexFile

/-- The import of a contract's exported type. -/
def typeImport (c : BoundContract) : TypeImport := { nameSpace := c.nameSpace, name := c.name }

/-- The index file of hubs and receivers. It imports the connection and the wrappers from the
transport, the exported types, and the data types. -/
def ofContracts (transportModule : String) (hubs receivers : List BoundContract) : IndexFile :=
  let cs := hubs ++ receivers
  { imports :=
      [{ names := "HubConnection" :: (wrappersOf cs).map (·.identifier)
         source := transportModule }]
        ++ importLines "./" ((firstOccurrences [] cs).map typeImport)
        ++ importLines "../" (cs.flatMap (·.imports))
    hubs := hubs.map .ofContract
    receivers := receivers.map .ofContract }

/-- The layout of the index file. -/
def steps (f : IndexFile) : List Step :=
  heading.map .line ++ f.imports.map (fun i => .line i.text) ++ [.blank, .blank]
    ++ componentSteps
    ++ [.line "// API", .blank]
    ++ (factoryProvider f.hubs).steps
    ++ (binderProvider f.receivers).steps
    ++ [.line "// HubProxy", .blank] ++ f.hubs.flatMap HubProxy.steps
    ++ [.line "// Receiver", .blank] ++ f.receivers.flatMap ReceiverBinder.steps

/-- The name of the index file. -/
def fileName : String := "index.ts"

/-- The index file as text. -/
def toSource (settings : Settings) (f : IndexFile) : SourceFile :=
  { path := pathOf settings fileName, content := renderSteps settings f.steps }

end IndexFile

/-- The index file for hubs and receivers as text. -/
def indexSource (settings : Settings) (hubs receivers : List BoundContract) : SourceFile :=
  (IndexFile.ofContracts settings.output.transportModule hubs receivers).toSource settings

end HubBindings.Client
