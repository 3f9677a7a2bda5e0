import HubBindings.Proofs.Client.Proxy
import Mathlib.Data.List.Nodup

/-!
Look-up of factories and binders by interface name. A look-up function is a chain of tests, one for
each interface of a role, and the first test that holds decides. The tests and the names of classes
use simple names, so interfaces of one name in two namespaces get in each other's way:
`lookUps_distinguish_iff` says that nothing else does, and `chatProgram_lookUp_misled` that it
happens.
-/

namespace HubBindings.Client

open Contract Generator Text

variable {x : Generator} {g : TypeGraph} {w : WellKnown} {b : Bindings} {role : Role}

/-! ## Chains of tests -/

/-- Whether the lines of a test begin with one that holds if `key` has a value. -/
def holdsFor (key value : String) (test : List Line) : Bool :=
  test.head? == some ⟨1, "if(" ++ key ++ " === \"" ++ value ++ "\") \x7b"⟩

/-- The place of the test that decides for a value of `key`: the first that holds. -/
def deciding? (key value : String) (chain : List (List Line)) : Option Nat :=
  chain.findIdx? (holdsFor key value)

private theorem holdsFor_test (role : Role) (value : String) (c : BoundContract) :
    holdsFor (lookUpNames role).key value (testLines role c) = (c.name == value) := by
  rw [Bool.eq_iff_iff]
  simp [holdsFor, testLines, String.append_right_inj, String.append_left_inj]

/-- A chain decides by the first interface with the name. -/
theorem deciding?_chain (role : Role) (value : String) (cs : List BoundContract) :
    deciding? (lookUpNames role).key value (cs.map (testLines role)) =
      cs.findIdx? fun c => c.name == value := by
  rw [deciding?, List.findIdx?_map]
  congr 1
  funext c
  exact holdsFor_test role value c

/-- A search by key finds every element at its own place exactly if no two have the same key. -/
theorem findIdx?_own_iff {α κ : Type} [DecidableEq κ] {key : α → κ} {xs : List α} :
    (∀ (i : Nat) a, xs[i]? = some a → xs.findIdx? (fun y => key y == key a) = some i) ↔
      (xs.map key).Nodup := by
  induction xs with
  | nil => simp
  | cons d xs ih =>
    rw [List.map_cons, List.nodup_cons, ← ih]
    constructor
    · intro h
      have hne : ∀ a ∈ xs, key d ≠ key a := by
        intro a ha heq
        obtain ⟨i, hi⟩ := List.mem_iff_getElem?.mp ha
        have hplace := h (i + 1) a (by simpa using hi)
        simp [List.findIdx?_cons, heq] at hplace
      refine ⟨?_, fun i a ha => ?_⟩
      · intro hmem
        obtain ⟨a, ha, heq⟩ := List.mem_map.mp hmem
        exact hne a ha heq.symm
      · have hplace := h (i + 1) a (by simpa using ha)
        simpa [List.findIdx?_cons, hne a (List.mem_of_getElem? ha)] using hplace
    · rintro ⟨hnew, hrest⟩ i a ha
      cases i with
      | zero =>
        cases ha
        simp [List.findIdx?_cons]
      | succ i =>
        have ha' : xs[i]? = some a := by simpa using ha
        have hne : key d ≠ key a := fun heq =>
          hnew (heq ▸ List.mem_map_of_mem (List.mem_of_getElem? ha'))
        simp [List.findIdx?_cons, hne, hrest i a ha']

/-! ## Classes by name -/

/-- The classes that are declared for an interface of a role. -/
def classesOf (role : Role) (c : BoundContract) : List String :=
  match role with
  | .hub => [targetClass .hub c, c.name ++ "_HubProxy"]
  | .receiver => [targetClass .receiver c]

/-- A factory and a proxy never have the same class name. -/
theorem factory_ne_proxy (name name' : String) :
    name ++ "_HubProxyFactory" ≠ name' ++ "_HubProxy" := by
  intro h
  have hchars := congrArg String.toList h
  rw [String.toList_append, String.toList_append,
    show "_HubProxyFactory".toList = "_HubProxyFacto".toList ++ ['r', 'y'] by decide,
    show "_HubProxy".toList = "_HubPro".toList ++ ['x', 'y'] by decide, ← List.append_assoc,
    ← List.append_assoc] at hchars
  exact absurd (List.append_inj' hchars rfl).2 (by decide)

private theorem classesOf_nodup (role : Role) (c : BoundContract) : (classesOf role c).Nodup := by
  cases role with
  | hub => simp [classesOf, targetClass]
  | receiver => exact List.nodup_singleton _

private theorem classesOf_disjoint (role : Role) (c d : BoundContract) :
    (classesOf role c).Disjoint (classesOf role d) ↔ c.name ≠ d.name := by
  cases role with
  | hub =>
    simp [classesOf, targetClass, String.append_left_inj, (factory_ne_proxy _ _).symm, eq_comm]
  | receiver => simp [classesOf, targetClass, String.append_left_inj, eq_comm]

/-- Classes of different interfaces have different names exactly if the interfaces have. -/
theorem classes_nodup_iff (role : Role) (cs : List BoundContract) :
    (cs.flatMap (classesOf role)).Nodup ↔ (cs.map (·.name)).Nodup := by
  rw [List.nodup_flatMap, and_iff_right fun c _ => classesOf_nodup role c, List.Nodup,
    List.pairwise_map]
  exact List.Pairwise.iff fun {c d} => classesOf_disjoint role c d

/-! ## Look-ups of a run -/

/-- The tests of a role's look-up function. -/
def chain (x : Generator) (b : Bindings) (role : Role) : List (List Line) :=
  ((contractsOf b role).map (shown x)).map (testLines role)

private theorem lookUpLines_within (x : Generator) (b : Bindings) (role : Role) :
    lookUpLines role ((contractsOf b role).map (shown x)) <:+: aggregateLines x b := by
  rw [aggregateLines, indexLines]
  cases role with
  | hub =>
    iterate 5 apply List.infix_append_of_infix_left
    exact (List.suffix_append _ _).isInfix
  | receiver =>
    iterate 4 apply List.infix_append_of_infix_left
    exact (List.suffix_append _ _).isInfix

/-- The look-up function of a role as it stands in the index file. -/
theorem chain_printed (x : Generator) (b : Bindings) (role : Role) :
    ⟨0, "export const " ++ (lookUpNames role).function ++ " = ((" ++ (lookUpNames role).key
        ++ ": string) => \x7b"⟩
      :: ((chain x b role).flatten ++ [⟨0, "\x7d) as " ++ (lookUpNames role).type ++ ";"⟩])
      <:+: aggregateLines x b := by
  refine List.IsInfix.trans ?_ (lookUpLines_within x b role)
  rw [lookUpLines, chain, ← List.flatMap_def]
  refine List.infix_cons (List.infix_append_of_infix_right (List.infix_cons (List.infix_cons ?_)))
  exact ⟨[], [.empty], by simp⟩

/-- The lines that declare the classes of an interface of a role. -/
def declarationLines : Role → BoundContract → List Line
  | .hub, c => factoryLines c ++ classLines c
  | .receiver, c => binderLines c

private theorem declarationLines_within {c : BoundContract} (hc : c ∈ contractsOf b role) :
    declarationLines role (shown x c) <:+: aggregateLines x b := by
  cases role with
  | hub => exact proxyLines_within hc
  | receiver => exact binderLines_within hc

private theorem classes_declared {c : BoundContract} {name : String}
    (hname : name ∈ classesOf role c) :
    ∃ type, ⟨0, "class " ++ name ++ " implements " ++ type ++ " \x7b"⟩
      ∈ declarationLines role c := by
  -- the header is the first line of each declaration
  have hheader : ∀ {declared type : String} {lines : List Line},
      declared = "class " ++ name ++ " implements " ++ type ++ " \x7b" →
        ⟨0, "class " ++ name ++ " implements " ++ type ++ " \x7b"⟩ ∈ ⟨0, declared⟩ :: lines :=
    fun h => h ▸ List.mem_cons_self
  cases role with
  | hub =>
    rcases List.mem_cons.mp hname with rfl | hname
    · refine ⟨"HubProxyFactory<" ++ c.name ++ ">", List.mem_append_left _ (hheader ?_)⟩
      rw [← String.toList_inj]
      simp [targetClass]
    · cases List.mem_singleton.mp hname
      refine ⟨c.name, List.mem_append_right _ (hheader ?_)⟩
      rw [← String.toList_inj]
      simp
  | receiver =>
    cases List.mem_singleton.mp hname
    refine ⟨"ReceiverRegister<" ++ c.name ++ ">", hheader ?_⟩
    rw [← String.toList_inj]
    simp [targetClass]

/-- Interfaces of one name live in one namespace. -/
def NamesSuffice (cs : List BoundContract) : Prop :=
  ∀ c ∈ cs, ∀ d ∈ cs, c.name = d.name → c.nameSpace = d.nameSpace

private theorem mem_of_contractsOf {c : BoundContract} (hc : c ∈ contractsOf b role) :
    c ∈ b.hubs ++ b.receivers := by
  cases role with
  | hub => exact List.mem_append_left _ hc
  | receiver => exact List.mem_append_right _ hc

private theorem qualifiedNames_nodup (hg : g.Coherent) (hb : x.bindings? g w = some b)
    (role : Role) :
    ((contractsOf b role).map (·.qualifiedName)).Nodup := by
  cases role with
  | hub => exact (bindings?_boundRole hb).1.nodup hg
  | receiver => exact (bindings?_boundRole hb).2.nodup hg

private theorem names_nodup_iff (hg : g.Coherent) (hb : x.bindings? g w = some b) (role : Role) :
    ((contractsOf b role).map (·.name)).Nodup ↔ NamesSuffice (contractsOf b role) := by
  constructor
  · intro hnodup c hc d hd hname
    rw [List.inj_on_of_nodup_map hnodup hc hd hname]
  · intro hsuffice
    have hnodup := qualifiedNames_nodup hg hb role
    rw [List.Nodup, List.pairwise_map] at hnodup ⊢
    refine hnodup.imp_of_mem fun {c d} hc hd hne hname => hne ?_
    exact qualifiedName_of_names hg hb (mem_of_contractsOf hc) (mem_of_contractsOf hd) hname
      (hsuffice c hc d hd hname)

/-- The look-up of a role in the index file, with the classes it leads to. -/
structure LooksUp (x : Generator) (b : Bindings) (role : Role) : Prop where
  printed : ⟨0, "export const " ++ (lookUpNames role).function ++ " = ((" ++ (lookUpNames role).key
      ++ ": string) => \x7b"⟩
    :: ((chain x b role).flatten ++ [⟨0, "\x7d) as " ++ (lookUpNames role).type ++ ";"⟩])
    <:+: aggregateLines x b
  declared : ∀ c ∈ contractsOf b role, declarationLines role (shown x c) <:+: aggregateLines x b ∧
    ∀ name ∈ classesOf role (shown x c), ∃ type,
      ⟨0, "class " ++ name ++ " implements " ++ type ++ " \x7b"⟩
        ∈ declarationLines role (shown x c)
  /-- The first interface that is shown with a name decides for it. -/
  decides : ∀ value, deciding? (lookUpNames role).key value (chain x b role) =
    (contractsOf b role).findIdx? fun c => (shown x c).name == value
  /-- Every interface has its own test decide for its name. -/
  own : (∀ (i : Nat) c, (contractsOf b role)[i]? = some c →
      deciding? (lookUpNames role).key c.name (chain x b role) = some i) ↔
    NamesSuffice (contractsOf b role) ∧
      ∀ c ∈ contractsOf b role, BreaksBy x.settings.output.lineEnding c.name
  classes : ((contractsOf b role).flatMap fun c => classesOf role (shown x c)).Nodup ↔
    NamesSuffice (contractsOf b role) ∧
      StayApart x.settings.output.lineEnding ((contractsOf b role).map (·.name))

/-- The search for the shown names finds every name at its own place exactly if no two names are the
same and all are shown as they are. -/
theorem findIdx?_shown_iff {cs : List BoundContract} :
    (∀ (i : Nat) c, cs[i]? = some c →
        cs.findIdx? (fun d => (shown x d).name == c.name) = some i) ↔
      (cs.map (·.name)).Nodup ∧ ∀ c ∈ cs, BreaksBy x.settings.output.lineEnding c.name := by
  have hsearch : (∀ c ∈ cs, (shown x c).name = c.name) → ∀ name,
      cs.findIdx? (fun c => (shown x c).name == name) = cs.findIdx? fun c => c.name == name := by
    intro hshown name
    have hnames : cs.map (fun c => (shown x c).name) = cs.map (·.name) :=
      List.map_congr_left hshown
    have h := congrArg (List.findIdx? (· == name)) hnames
    rwa [List.findIdx?_map, List.findIdx?_map] at h
  constructor
  · intro h
    have hshown : ∀ c ∈ cs, (shown x c).name = c.name := by
      intro c hc
      obtain ⟨i, hi⟩ := List.mem_iff_getElem?.mp hc
      obtain ⟨hlt, hname, _⟩ := List.findIdx?_eq_some_iff_getElem.mp (h i c hi)
      cases (List.getElem?_eq_getElem hlt).symm.trans hi
      exact of_decide_eq_true hname
    refine ⟨findIdx?_own_iff.mp fun i c hc => ?_,
      fun c hc => withBreaks_eq_self_iff.mp (hshown c hc)⟩
    rw [← hsearch hshown, h i c hc]
  · rintro ⟨hnodup, hbreaks⟩ i c hc
    rw [hsearch fun c hc => withBreaks_eq_self_iff.mpr (hbreaks c hc)]
    exact findIdx?_own_iff.mpr hnodup i c hc

private theorem looksUp (hg : g.Coherent) (hb : x.bindings? g w = some b) (role : Role) :
    LooksUp x b role := by
  have hdecides : ∀ value, deciding? (lookUpNames role).key value (chain x b role) =
      (contractsOf b role).findIdx? fun c => (shown x c).name == value := fun value => by
    rw [chain, deciding?_chain, List.findIdx?_map]
    rfl
  refine ⟨chain_printed x b role, fun c hc => ⟨declarationLines_within hc,
    fun name hname => classes_declared hname⟩, hdecides, ?_, ?_⟩
  · simp only [hdecides]
    rw [findIdx?_shown_iff, names_nodup_iff hg hb]
  · rw [← names_nodup_iff hg hb, ← nodup_withBreaks_iff, ← List.flatMap_map, classes_nodup_iff,
      List.map_map, List.map_map]
    rfl

/-- The look-ups of a run in both roles. -/
def LookUps (x : Generator) (g : TypeGraph) (out : Output) : Prop :=
  ∃ w b, prepare x.settings g = .ok w ∧ x.bindings? g w = some b ∧ out.files = sources x b ∧
    ∀ role, LooksUp x b role

theorem lookUps_distinguish_iff {out : Output} (hg : g.Reachable)
    (h : x.generate? g = some (.ok out)) : LookUps x g out := by
  obtain ⟨w, b, hw, hb, rfl⟩ := generate?_eq_ok h
  exact ⟨w, b, hw, hb, emit_files x b, looksUp hg.coherent hb⟩

theorem roomProgram_lookUps_distinguish :
    roomProgram.Reachable ∧
      ∃ out, ({} : Generator).generate? roomProgram = some (.ok out) ∧
        out.files.length = 2 ∧ LookUps {} roomProgram out :=
  ⟨roomProgram_reachable, _, rfl, by decide +kernel,
    lookUps_distinguish_iff roomProgram_reachable rfl⟩

/-- Hubs of one name in two namespaces, next to those of `roomProgram`. -/
def chatProgram : TypeGraph :=
  TypeGraph.declareAll
    [{ head := { kind := .interface, nameSpace := "App", name := "IChat" }
       attributes := [⟨0⟩], methods := [{ name := "JoinAs", returns := ⟨3⟩ }] },
     { head := { kind := .interface, nameSpace := "Admin", name := "IChat" }
       attributes := [⟨0⟩], methods := [{ name := "Ban", returns := ⟨3⟩ }] }] roomProgram

/-- The test for `App.IChat` decides for `Admin.IChat` too, and the classes of both have the same
names. -/
theorem chatProgram_lookUp_misled :
    chatProgram.Reachable ∧
      ∃ out w b, ({} : Generator).generate? chatProgram = some (.ok out) ∧
        prepare {} chatProgram = .ok w ∧ ({} : Generator).bindings? chatProgram w = some b ∧
        b.hubs.map (fun c => (c.nameSpace, c.name)) =
          [("App", "IRoom"), ("App", "ILobby"), ("App", "IChat"), ("Admin", "IChat")] ∧
        deciding? "hubType" "IChat" (chain {} b .hub) = some 2 ∧
        ¬ (b.hubs.flatMap (classesOf .hub)).Nodup :=
  ⟨roomProgram_reachable.declareAll (by decide +kernel), _, _, _, rfl, rfl, rfl,
    by decide +kernel, by decide +kernel, by decide +kernel⟩

end HubBindings.Client
