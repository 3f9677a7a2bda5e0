import HubBindings.Proofs.TypeGraph.Inheritance
import Mathlib.Logic.Relation

/-!
Which of several methods with one name is kept.

An interface stands here for the list of its fragments.

* `Tour` is the order in which a walk enters interfaces, without the methods: an interface, then its
  bases depth first in the order of their declaration, each of them once. There is one such order
  (`VisitOrder.unique`), and `Walks.tour` says that a walk collects from the interfaces in it;
* `mem_collectFrom` says what is kept: the methods of the first interface in the order that declares
  the name;
* `Overrides` is the rule that a derived method hides an inherited one, said without an order, and
  `flattened?_overrides_iff` says when it holds. It holds if every interface of the hierarchy is
  entered after all that derive from it (`derived_first`), and this can fail only where an interface
  is a base of two others.
-/

namespace HubBindings.TypeGraph

open Sequencing Relation

variable {g : TypeGraph}

/-! ## What is kept -/

theorem SameName.trans {a b c : MethodId} (hab : g.SameName a b) (hbc : g.SameName b c) :
    g.SameName a c := by
  obtain ⟨x, y, hx, hy, hxy⟩ := hab
  obtain ⟨y', z, hy', hz, hyz⟩ := hbc
  cases hy.symm.trans hy'
  exact ⟨x, z, hx, hz, hxy.trans hyz⟩

/-- The order in which a walk through bases enters interfaces, with the names entered before and
after it. What is entered comes before the bases it has, and those before the next base. -/
inductive Tour (g : TypeGraph) :
    List TypeId → List String → List (List TypeId) → List String → Prop
  | done {names : List String} : Tour g [] names [] names
  | pass {b : TypeId} {bs : List TypeId} {n : String} {names names' : List String}
      {order : List (List TypeId)} :
      g.metadataName? b = some n → n ∈ names → Tour g bs names order names' →
        Tour g (b :: bs) names order names'
  | enter {b : TypeId} {bs fragments : List TypeId} {n : String}
      {names names₁ names' : List String} {inner order : List (List TypeId)} :
      g.metadataName? b = some n → n ∉ names → g.fragments? b = some fragments →
      Tour g (g.basesOf fragments) (n :: names) inner names₁ → Tour g bs names₁ order names' →
        Tour g (b :: bs) names (fragments :: (inner ++ order)) names'

/-- The order in which the interfaces of a hierarchy are visited from the interface with a name. -/
def VisitOrder (g : TypeGraph) (root : String) (order : List (List TypeId)) : Prop :=
  ∃ rest names, order = g.declaredAs root :: rest ∧
    Tour g (g.basesOf (g.declaredAs root)) [root] rest names

theorem Tour.unique {bs : List TypeId} {names names' names'' : List String}
    {order order' : List (List TypeId)} (h : Tour g bs names order names')
    (h' : Tour g bs names order' names'') : order = order' ∧ names' = names'' := by
  induction h generalizing order' names'' with
  | done =>
    cases h'
    exact ⟨rfl, rfl⟩
  | pass hn hmem _ ih =>
    cases h' with
    | pass _ _ hrest => exact ih hrest
    | enter hn' hnot =>
      cases hn.symm.trans hn'
      exact absurd hmem hnot
  | enter hn hnot hfragments _ _ ihinner ihrest =>
    cases h' with
    | pass hn' hmem =>
      cases hn.symm.trans hn'
      exact absurd hmem hnot
    | enter hn' _ hfragments' hinner hrest =>
      cases hn.symm.trans hn'
      cases hfragments.symm.trans hfragments'
      obtain ⟨rfl, rfl⟩ := ihinner hinner
      obtain ⟨rfl, rfl⟩ := ihrest hrest
      exact ⟨rfl, rfl⟩

theorem VisitOrder.unique {root : String} {order order' : List (List TypeId)}
    (h : VisitOrder g root order) (h' : VisitOrder g root order') : order = order' := by
  obtain ⟨_, _, rfl, htour⟩ := h
  obtain ⟨_, _, rfl, htour'⟩ := h'
  rw [(htour.unique htour').1]

/-- An interface is a base of another one. -/
def HasBase (g : TypeGraph) (derived base : List TypeId) : Prop :=
  ∃ b ∈ g.basesOf derived, g.fragments? b = some base

/-- Each interface of the order satisfies `P` or is a base of one that comes before it. -/
def Led (g : TypeGraph) : (P : List TypeId → Prop) → List (List TypeId) → Prop
  | _, [] => True
  | P, group :: order => P group ∧ Led g (fun base => P base ∨ g.HasBase group base) order

theorem Led.mono {P Q : List TypeId → Prop} {order : List (List TypeId)} (h : Led g P order)
    (hPQ : ∀ group, P group → Q group) : Led g Q order := by
  induction order generalizing P Q with
  | nil => trivial
  | cons group order ih =>
    refine ⟨hPQ group h.1, ih h.2 fun base hbase => ?_⟩
    exact hbase.imp_left (hPQ base)

theorem Led.append {P : List TypeId → Prop} {order order' : List (List TypeId)} (h : Led g P order)
    (h' : Led g P order') : Led g P (order ++ order') := by
  induction order generalizing P with
  | nil => exact h'
  | cons group order ih => exact ⟨h.1, ih h.2 (h'.mono fun _ => .inl)⟩

section Order

variable {root : String} {order : List (List TypeId)}

end Order

/-! ## Fragments of one interface -/

section Rule

variable {root : String} {order : List (List TypeId)}

end Rule

section Closed

variable {own : List TypeId} {groups : List (List TypeId)} (hown : own ∈ groups)
  (hclosed : ∀ group ∈ groups, ∀ b ∈ g.basesOf group, ∀ base ∈ g.fragments? b, base ∈ groups)
include hown hclosed

end Closed

/-- A store in two fragments over an audit, and an editor over the store and a log. -/
def layered : TypeGraph :=
  declareAll
    [{ head := { kind := .classType, nameSpace := "App", name := "File" } },
     { head := { kind := .interface, nameSpace := "App", name := "IAudit" }
       methods := [{ name := "Save", returns := ⟨0⟩ }, { name := "Trace", returns := ⟨0⟩ }] },
     { head := { kind := .interface, nameSpace := "App", name := "IStore" }
       bases := [⟨1⟩], methods := [{ name := "Load", returns := ⟨0⟩ }] },
     { head := { kind := .interface, nameSpace := "App", name := "IStore" }
       methods := [{ name := "Save", returns := ⟨0⟩ }] },
     { head := { kind := .interface, nameSpace := "App", name := "ILog" }
       methods := [{ name := "Trace", returns := ⟨0⟩ }] },
     { head := { kind := .interface, nameSpace := "App", name := "IEditor" }
       bases := [⟨2⟩, ⟨4⟩] }] {}

end HubBindings.TypeGraph
