import HubBindings.CallShape
import HubBindings.Diagnostic
import HubBindings.Naming
import HubBindings.TypeGraph.Hierarchy

/-!
Contracts: the interfaces that a program marks as hubs or receivers. Fragments of one interface are
merged by metadata name, inherited methods are added, and every method has a shape. Generic
interfaces are refused, and so is a method whose generated name is already in use.
-/

namespace HubBindings

/-- A method of a contract. -/
structure ContractMethod where
  /-- Name of the generated member. -/
  localName : String
  /-- Declared name, which goes over the wire. -/
  wireName : String
  id : MethodId
  parameters : List Parameter
  returns : TypeId
  call : Call
  deriving DecidableEq, Repr

/-- A marked interface. -/
structure Contract where
  name : String
  nameSpace : String
  qualifiedName : String
  role : Role
  /-- Declarations of the interface that are in scope, in the order of declarations. -/
  fragments : List TypeId
  methods : List ContractMethod
  deriving DecidableEq, Repr

namespace Contract

variable (g : TypeGraph) (w : WellKnown)

/-- The marker of a role. -/
def markerOf : Role → TypeId
  | .hub => w.hubMarker
  | .receiver => w.receiverMarker

/-- Adds a type to the group of its name, or starts a group. -/
def addToGroup (groups : List (String × List TypeId)) (name : String) (ty : TypeId) :
    List (String × List TypeId) :=
  if groups.any (·.1 == name) then
    groups.map fun (n, tys) => if n == name then (n, tys ++ [ty]) else (n, tys)
  else groups ++ [(name, [ty])]

/-- Groups types by metadata name. Groups are in the order of their first types. -/
def groupByName (tys : List TypeId) : List (String × List TypeId) :=
  tys.foldl (fun groups ty =>
    match g.metadataName? ty with
    | some name => addToGroup groups name ty
    | none => groups) []

/-- The interfaces of a scope that carry the marker of a role. -/
def marked (scope : Scope) (role : Role) : List TypeId :=
  (g.annotated scope (markerOf w role)).filter fun ty => g.kind? ty == some .interface

/-- Describes a method. -/
def describe? (style : NamingStyle) (id : MethodId) : Option ContractMethod := do
  let m ← g.method? id
  return {
    localName := style.apply m.name
    wireName := m.name
    id
    parameters := m.parameters
    returns := m.returns
    call := ← Call.classify? g w m }

/-- The diagnostic for a method whose generated name belongs to the method `first`. -/
def collision (subject : String) (m : ContractMethod) (first : String) : Diagnostic :=
  { kind := .nameCollision
    subject
    method := some m.wireName
    message := "Generated name '" ++ m.localName ++ "' is already used by '" ++ first ++ "'" }

/-- Keeps the first method of each generated name and reports the others. `taken` holds the names
in use with the declared names of their methods. -/
def rejectCollisions (subject : String) (taken : List (String × String)) :
    List ContractMethod → List ContractMethod × List Diagnostic
  | [] => ([], [])
  | m :: rest =>
    match taken.lookup m.localName with
    | some first =>
      let (kept, reports) := rejectCollisions subject taken rest
      (kept, collision subject m first :: reports)
    | none =>
      let (kept, reports) := rejectCollisions subject ((m.localName, m.wireName) :: taken) rest
      (m :: kept, reports)

/-- The diagnostic for a generic interface with a marker. -/
def genericMisuse (subject : String) (role : Role) : Diagnostic :=
  { kind := .genericMisuse
    subject
    message := role.name ++ " marker cannot be applied to a generic interface" }

/-- The contract of one marked interface, unless it is generic, and what there is to report. -/
def ofFragments? (style : NamingStyle) (role : Role) (fragments : List TypeId) :
    Option (Option Contract × List Diagnostic) := do
  let first ← fragments.head?
  let qualifiedName ← g.qualifiedName? first
  if fragments.any fun f => g.isGeneric? f == some true then
    return (none, [genericMisuse qualifiedName role])
  else
    let ids ← g.flattened? fragments
    let all ← ids.mapM (describe? g w style)
    let (methods, reports) := rejectCollisions qualifiedName [] all
    let contract : Contract :=
      { name := ← g.name? first
        nameSpace := ← g.nameSpace? first
        qualifiedName, role, fragments, methods }
    return (some contract, reports)

/-- The contracts of a role, and what there is to report. -/
def discoverRole? (scope : Scope) (style : NamingStyle) (role : Role) :
    Option (List Contract × List Diagnostic) := do
  let found ← (groupByName g (marked g w scope role)).mapM fun (_, fragments) =>
    ofFragments? g w style role fragments
  return (found.filterMap (·.1), found.flatMap (·.2))

end Contract

/-- The contracts of a program. -/
structure Discovery where
  hubs : List Contract
  receivers : List Contract
  diagnostics : List Diagnostic
  deriving DecidableEq, Repr

/-- Finds the contracts of a scope: hubs first, then receivers. -/
def Discovery.run? (g : TypeGraph) (w : WellKnown) (scope : Scope) (style : NamingStyle) :
    Option Discovery := do
  let (hubs, hubReports) ← Contract.discoverRole? g w scope style .hub
  let (receivers, receiverReports) ← Contract.discoverRole? g w scope style .receiver
  return { hubs, receivers, diagnostics := hubReports ++ receiverReports }

end HubBindings
