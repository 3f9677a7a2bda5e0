import HubBindings.TypeGraph.Query

/-!
Methods of an interface together with those it inherits. The bases of an interface are visited
depth first, each metadata name once. A method of a base is left out if a method of the same name
was collected before the base was entered.
-/

namespace HubBindings.TypeGraph

/-- What a visit of interfaces has collected. -/
structure Visit where
  /-- Metadata names of the interfaces entered so far. -/
  entered : List String := []
  /-- Methods in the order in which they were met. -/
  methods : List MethodId := []

variable (g : TypeGraph)

/-- Whether one of some methods has a given name. -/
def isTaken (methods : List MethodId) (name : String) : Bool :=
  methods.any fun m => (g.method? m).any fun x => x.name = name

/-- Whether a method is hidden by one of some methods with the same name. -/
def isHidden (methods : List MethodId) (m : MethodId) : Bool :=
  (g.method? m).any fun x => g.isTaken methods x.name

/-- Adds the methods of one interface that are not hidden, each once. -/
def Visit.collect (v : Visit) (own : List MethodId) : Visit :=
  let visible := own.filter fun m => !g.isHidden v.methods m
  { v with
    methods := visible.foldl (fun ms m => if ms.contains m then ms else ms ++ [m]) v.methods }

/-- Enters an interface given by its fragments: collects its own methods and then visits its bases
that were not entered before. At most `room` interfaces may be entered inside each other. -/
def enter : (room : Nat) → List TypeId → Visit → Option Visit
  | 0, _, _ => none
  | room + 1, fragments, v => do
    let own ← fragments.mapM g.methods?
    let bases ← fragments.mapM g.bases?
    bases.flatten.foldlM (fun v base => do
      let name ← g.metadataName? base
      if v.entered.contains name then return v
      else enter room (← g.fragments? base) { v with entered := name :: v.entered })
      (v.collect g own.flatten)

/-- The methods of an interface given by its fragments, with every inherited method that is not
hidden. -/
def flattened? (fragments : List TypeId) : Option (List MethodId) := do
  let entered ← fragments.head?.toList.mapM g.metadataName?
  let v ← g.enter (g.typeCount + 1) fragments { entered }
  return v.methods

end HubBindings.TypeGraph
