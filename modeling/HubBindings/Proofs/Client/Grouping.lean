import HubBindings.Proofs.Client.Imports
import HubBindings.Proofs.Client.Paths

/-!
How contracts are spread over interface files, for any list of contracts and not only for that of a
run.

* `firstsIn`: the contracts of a module before which no other has their qualified name;
* `contentOf`: the text of a file, as a function of the contracts that it holds;
* `interfaceSources_grouped`: there is one file for each module that has such contracts, in
  ascending order, and every qualified name is written once. A namespace that only occurs with names
  of earlier contracts has no file (`movedContracts_without_file`).
-/

namespace HubBindings.Client

variable {s : Settings} {cs : List BoundContract}

/-- The contracts of a module that are the first with their qualified names, in their order. -/
def firstsIn (cs : List BoundContract) (module : String) : List BoundContract :=
  (cs.zipIdx.filter fun p =>
    (cs.take p.2).all (fun d => d.qualifiedName ≠ p.1.qualifiedName) ∧
      moduleName p.1.nameSpace = module).map (·.1)

/-- The text of a file with some contracts. -/
def contentOf (s : Settings) (members : List BoundContract) : String :=
  renderSteps s
    (heading.map .line
      ++ (InterfaceFile.transportImport s.output.transportModule members
        ++ importLines "../" (members.flatMap (·.imports))).map (fun i => .line i.text)
      ++ [.blank]
      ++ members.flatMap fun c => (ExportedType.ofContract c).steps s.output.emitDocs)

/-- The file of a module with the contracts that belong there. -/
def fileOf (s : Settings) (cs : List BoundContract) (module : String) : SourceFile :=
  { path := pathOf s (module ++ ".ts"), content := contentOf s (firstsIn cs module) }

/-! ## First contracts by their places -/

/-- A contract is kept if its name has not been seen and does not occur before its place. -/
theorem firstOccurrences_eq_places (seen : List String) (cs : List BoundContract) :
    firstOccurrences seen cs =
      (cs.zipIdx.filter fun p => p.1.qualifiedName ∉ seen ∧
        (cs.take p.2).all fun d => d.qualifiedName ≠ p.1.qualifiedName).map (·.1) := by
  induction cs generalizing seen with
  | nil => rfl
  | cons c cs ih =>
    -- behind the first contract, places are one further and its name counts as seen
    have hrest : ∀ seen' : List String,
        (∀ q, q ∉ seen' ↔ q ∉ seen ∧ c.qualifiedName ≠ q) →
        (((cs.zipIdx.map fun p => (p.1, p.2 + 1)).filter fun p => p.1.qualifiedName ∉ seen ∧
          ((c :: cs).take p.2).all fun d => d.qualifiedName ≠ p.1.qualifiedName).map (·.1)) =
            firstOccurrences seen' cs := by
      intro seen' hseen'
      rw [ih, List.filter_map, List.map_map]
      refine congrArg (List.map _) (List.filter_congr fun p _ => ?_)
      simp [hseen', and_assoc]
    rw [List.zipIdx_cons, Nat.zero_add, List.zipIdx_succ, List.filter_cons, firstOccurrences]
    by_cases hc : c.qualifiedName ∈ seen
    · rw [if_pos (List.contains_iff_mem.mpr hc), if_neg (by simp [hc])]
      refine (hrest seen fun q => ?_).symm
      exact ⟨fun hq => ⟨hq, fun e => hq (e ▸ hc)⟩, fun hq => hq.1⟩
    · rw [if_neg fun h => hc (List.contains_iff_mem.mp h), if_pos (by simp [hc]), List.map_cons,
        ← hrest (c.qualifiedName :: seen) fun q => ?_]
      rw [List.mem_cons, not_or, and_comm, ne_comm]

/-- What is written in a module are the first contracts by their places. -/
theorem written_eq_firstsIn (cs : List BoundContract) (module : String) :
    written cs module = firstsIn cs module := by
  rw [written, firstOccurrences_eq_places, List.filter_map, List.filter_filter, firstsIn]
  refine congrArg (List.map _) (List.filter_congr fun p _ => ?_)
  simp [and_comm]

private theorem firstsIn_sublist (cs : List BoundContract) (module : String) :
    (firstsIn cs module).Sublist cs := by
  have hsub : (firstsIn cs module).Sublist (cs.zipIdx.map (·.1)) := List.filter_sublist.map _
  rwa [List.zipIdx_map_fst] at hsub

/-- The module of the first contract with a qualified name has that contract for the name, and other
modules have none. -/
theorem filter_firstsIn {q : String} {first : BoundContract} (h : firstNamed cs q = some first)
    (module : String) : (firstsIn cs module).filter (fun c => c.qualifiedName = q) =
      if moduleName first.nameSpace = module then [first] else [] := by
  have hq : first.qualifiedName = q := by simpa using List.find?_some h
  rw [← written_eq_firstsIn]
  have hname : ∀ c ∈ written cs module, c.qualifiedName = q ↔ c = first := by
    intro c hc
    constructor
    · intro hcq
      exact Option.some.inj (((mem_written.mp hc).1.symm.trans (hcq ▸ rfl)).trans h)
    · rintro rfl
      exact hq
  have hmem : first ∈ written cs module ↔ moduleName first.nameSpace = module := by
    rw [mem_written, hq, h]
    simp
  have hnodup : (written cs module).Nodup := (written_names_nodup cs module).of_map _
  calc (written cs module).filter (fun c => c.qualifiedName = q)
      = (written cs module).filter (fun c => c = first) :=
        List.filter_congr fun c hc => decide_eq_decide.mpr (hname c hc)
    _ = List.replicate ((written cs module).count first) first := List.filter_eq first
    _ = if moduleName first.nameSpace = module then [first] else [] := by
        by_cases hm : moduleName first.nameSpace = module
        · rw [hnodup.count, if_pos hm, if_pos (hmem.mpr hm), List.replicate_one]
        · rw [hnodup.count, if_neg hm, if_neg fun hf => hm (hmem.mp hf), List.replicate_zero]

/-! ## Files -/

private theorem toSource_ofContracts (s : Settings) (module : String)
    (members : List BoundContract) :
    (InterfaceFile.ofContracts s.output.transportModule module members).toSource s =
      { path := pathOf s (module ++ ".ts"), content := contentOf s members } := by
  rw [InterfaceFile.toSource, InterfaceFile.steps, InterfaceFile.ofContracts, List.flatMap_map,
    contentOf]

/-- The files are those of the modules of first contracts, one for each. -/
theorem interfaceSources_eq (s : Settings) (cs : List BoundContract) :
    interfaceSources s cs =
      (Ascending.ofList ((firstOccurrences [] cs).map fun c => moduleName c.nameSpace)).map
        (fileOf s cs) := by
  rw [interfaceSources, ← modules_all s.output.transportModule cs, List.map_map]
  refine List.map_congr_left fun file hfile => ?_
  obtain ⟨module, _, rfl⟩ := mem_all.mp hfile
  rw [toSource_ofContracts, written_eq_firstsIn]
  rfl

theorem mem_modules {module : String} :
    module ∈ Ascending.ofList ((firstOccurrences [] cs).map fun c => moduleName c.nameSpace) ↔
      firstsIn cs module ≠ [] := by
  rw [Ascending.mem_ofList, List.mem_map, ← written_eq_firstsIn, written, ne_eq,
    List.filter_eq_nil_iff]
  simp

/-- At the path of a module is its file, if the module has contracts. -/
theorem mem_interfaceSources_iff {module : String} {file : SourceFile}
    (hpath : file.path = pathOf s (module ++ ".ts")) :
    file ∈ interfaceSources s cs ↔ firstsIn cs module ≠ [] ∧ file = fileOf s cs module := by
  rw [interfaceSources_eq, List.mem_map]
  constructor
  · rintro ⟨module', hmodule', rfl⟩
    have heq : module' = module := pathOf_module_inj.mp hpath
    subst heq
    exact ⟨mem_modules.mp hmodule', rfl⟩
  · rintro ⟨hne, rfl⟩
    exact ⟨module, mem_modules.mpr hne, rfl⟩

/-- Interface files group contracts by their modules. -/
structure Grouped (s : Settings) (cs : List BoundContract) : Prop where
  /-- Modules with first contracts have one file each, in ascending order. -/
  files : ∃ modules : List String, modules.Pairwise (· < ·) ∧
    (∀ module, module ∈ modules ↔ firstsIn cs module ≠ []) ∧
    interfaceSources s cs = modules.map (fileOf s cs)
  /-- A qualified name is written in one file and once, from its first contract. -/
  once : ∀ c ∈ cs, ∃ first, firstNamed cs c.qualifiedName = some first ∧
    ∀ module, (firstsIn cs module).filter (fun d => d.qualifiedName = c.qualifiedName) =
      if moduleName first.nameSpace = module then [first] else []
  /-- Contracts of a file keep their order. -/
  order : ∀ module, (firstsIn cs module).Sublist cs
  /-- Lists with the same first contracts in a module have the same file for it. -/
  alone : ∀ (cs' : List BoundContract) (module : String),
    firstsIn cs' module = firstsIn cs module → ∀ file : SourceFile,
      file.path = pathOf s (module ++ ".ts") →
        (file ∈ interfaceSources s cs' ↔ file ∈ interfaceSources s cs)

/-- Contracts are grouped by the modules of their first occurrences, whatever the settings. -/
theorem interfaceSources_grouped (s : Settings) (cs : List BoundContract) : Grouped s cs where
  files := ⟨_, increasing_iff.mp (Ascending.increasing_ofList _), fun _ => mem_modules,
    interfaceSources_eq s cs⟩
  once c hc := by
    obtain ⟨first, _, _, hfirst⟩ := exists_firstNamed hc
    exact ⟨first, hfirst, filter_firstsIn hfirst⟩
  order := firstsIn_sublist cs
  alone cs' module heq file hpath := by
    rw [mem_interfaceSources_iff hpath, mem_interfaceSources_iff hpath, fileOf, fileOf, heq]

/-- Two contracts of one qualified name, the later one in another namespace. -/
def movedContracts : List BoundContract :=
  [{ name := "IHub", nameSpace := "App", qualifiedName := "App.IHub", role := .hub, methods := []
     wrappers := [], imports := [] },
   { name := "IHub", nameSpace := "Lib", qualifiedName := "App.IHub", role := .receiver
     methods := [], wrappers := [], imports := [] }]

/-- The namespace of the later contract has no file, so not every namespace has one. -/
theorem movedContracts_without_file :
    (interfaceSources {} movedContracts).map (·.path) = ["hubs/App.ts"] ∧
    ¬ ∀ (s : Settings) (cs : List BoundContract), ∀ c ∈ cs,
      pathOf s (moduleName c.nameSpace ++ ".ts") ∈ (interfaceSources s cs).map (·.path) := by
  have hpaths : (interfaceSources {} movedContracts).map (·.path) = ["hubs/App.ts"] := by
    decide +kernel
  refine ⟨hpaths, fun hall => ?_⟩
  have hlib : pathOf {} "Lib.ts" ∈ (interfaceSources {} movedContracts).map (·.path) :=
    hall {} movedContracts _ (List.mem_cons_of_mem _ List.mem_cons_self)
  rw [hpaths] at hlib
  exact absurd hlib (by decide +kernel)

end HubBindings.Client
