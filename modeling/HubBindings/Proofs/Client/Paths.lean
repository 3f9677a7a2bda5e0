import HubBindings.Proofs.Client.Proxy
import Mathlib.Data.List.Nodup

/-!
Paths of generated files. Interface files belong to different modules and have different paths. The
index file lies in the same directory under a fixed name, and nothing keeps a namespace from having
that name: `files_located` says that a namespace `index` is the only way in which two files of a run
get one path, and `indexProgram_paths_clash` that it happens.
-/

namespace HubBindings.Client

open Contract Generator

variable {x : Generator} {g : TypeGraph} {w : WellKnown} {b : Bindings}

/-! ## Paths by module -/

theorem pathOf_module_inj {s : Settings} {module module' : String} :
    pathOf s (module ++ ".ts") = pathOf s (module' ++ ".ts") ↔ module = module' := by
  rw [pathOf, pathOf, String.append_right_inj, String.append_left_inj]

/-- The module whose file would have the name of the index file. -/
theorem pathOf_module_eq_index {s : Settings} {module : String} :
    pathOf s (module ++ ".ts") = pathOf s IndexFile.fileName ↔ module = "index" :=
  @pathOf_module_inj s module "index"

private theorem modules_nodup (x : Generator) (b : Bindings) :
    ((files x b).map (·.module)).Nodup := by
  rw [files, modules_all]
  exact (Ascending.increasing_ofList _).imp Ascending.ne_of_lt

/-- No two interface files have the same path. -/
theorem interfacePaths_nodup (x : Generator) (b : Bindings) :
    ((files x b).map fun f => (f.toSource x.settings).path).Nodup := by
  have hpaths : (files x b).map (fun f => (f.toSource x.settings).path) =
      ((files x b).map (·.module)).map fun module => pathOf x.settings (module ++ ".ts") := by
    rw [List.map_map]
    rfl
  rw [hpaths]
  exact List.Nodup.map (fun _ _ h => pathOf_module_inj.mp h) (modules_nodup x b)

theorem sourcePaths_nodup (x : Generator) (b : Bindings) :
    (((files x b).map (·.toSource x.settings)).map (·.path)).Nodup := by
  rw [List.map_map]
  exact interfacePaths_nodup x b

/-! ## The namespace `index` -/

/-- A hub or receiver of the run lives in the namespace `index`: a marked interface that is not
generic, and whose first declaration in scope is there. -/
def UsesIndex (x : Generator) (g : TypeGraph) (w : WellKnown) : Prop :=
  ∃ role, ∃ group ∈ candidates g w (scope x.settings) role,
    (∀ f ∈ group.2, g.isGeneric? f ≠ some true) ∧
      ∃ first, group.2.head? = some first ∧ g.nameSpace? first = some "index"

private theorem nameSpace_of_module_index {nameSpace : String}
    (h : moduleName nameSpace = "index") :
    nameSpace = "index" := by
  unfold moduleName at h
  split at h
  · exact absurd h (by decide)
  · exact h

section Run

variable (hg : g.Coherent) (hb : x.bindings? g w = some b)
include hg hb

private theorem usesIndex_iff : UsesIndex x g w ↔ ∃ f ∈ files x b, f.module = "index" := by
  constructor
  · rintro ⟨role, group, hgroup, hplain, first, hfirst, hns⟩
    obtain ⟨hhubs, hreceivers⟩ := bindings?_boundRole hb
    have hexists : ∃ bc ∈ b.hubs ++ b.receivers, ComesFrom x g w role group bc := by
      cases role with
      | hub =>
        obtain ⟨bc, hbc, hcomes⟩ := hhubs.exists_contract hgroup hplain
        exact ⟨bc, List.mem_append_left _ hbc, hcomes⟩
      | receiver =>
        obtain ⟨bc, hbc, hcomes⟩ := hreceivers.exists_contract hgroup hplain
        exact ⟨bc, List.mem_append_right _ hbc, hcomes⟩
    obtain ⟨bc, hbc, hcomes⟩ := hexists
    obtain ⟨_, first', hfirst', _, hns'⟩ := hcomes.first
    cases hfirst.symm.trans hfirst'
    have hindex : bc.nameSpace = "index" := Option.some.inj (hns'.symm.trans hns)
    -- the file is written from the first contract with the qualified name
    obtain ⟨c, hc, hq, hfirstNamed⟩ := exists_firstNamed hbc
    have hcns : c.nameSpace = "index" := (names_of_qualifiedName hg hb hc hbc hq).2.trans hindex
    have hwritten : c ∈ written (b.hubs ++ b.receivers) "index" :=
      mem_written.mpr ⟨hq.symm ▸ hfirstNamed, by rw [hcns]; rfl⟩
    exact ⟨_, mem_all.mpr ⟨"index", List.ne_nil_of_mem hwritten, rfl⟩, rfl⟩
  · rintro ⟨f, hf, hmodule⟩
    obtain ⟨module, hne, rfl⟩ := mem_all.mp hf
    obtain ⟨c, hc⟩ := List.exists_mem_of_ne_nil _ hne
    have hns : c.nameSpace = "index" :=
      nameSpace_of_module_index ((mem_written.mp hc).2.trans hmodule)
    obtain ⟨role, group, hgroup, _, hcomes⟩ := bindings?_comesFrom hg hb (mem_of_mem_written hc)
    obtain ⟨hplain, first, hfirst, _, hns'⟩ := hcomes.first
    exact ⟨role, group, hgroup, hplain, first, hfirst, hns ▸ hns'⟩

private theorem index_path_mem_iff :
    ((index x b).toSource x.settings).path ∈
      (files x b).map (fun f => (f.toSource x.settings).path) ↔ UsesIndex x g w := by
  rw [usesIndex_iff hg hb, List.mem_map]
  exact exists_congr fun f => and_congr_right fun _ => pathOf_module_eq_index

end Run

/-! ## Files of a run -/

/-- Which file of a run has a path, and which is found by it. -/
structure Located (x : Generator) (b : Bindings) (out : Output) (clash : Prop) : Prop where
  emitted : out.files =
    (files x b).map (·.toSource x.settings) ++ [(index x b).toSource x.settings]
  /-- Two files have one path exactly if the index file has the path of an interface file. -/
  distinct : (out.files.map (·.path)).Nodup ↔ ¬ clash
  /-- Without a clash every file is found. -/
  found : ¬ clash → ∀ f ∈ out.files, out.file? f.path = some f
  /-- A clash hides the index file and no other. -/
  hidden : clash → ∃ f ∈ files x b, f.module = "index" ∧
    out.file? ((index x b).toSource x.settings).path = some (f.toSource x.settings) ∧
    ∀ f' ∈ files x b, out.file? (f'.toSource x.settings).path = some (f'.toSource x.settings)

private theorem emit_located (hg : g.Coherent) (hb : x.bindings? g w = some b) :
    Located x b (emit x.settings b) (UsesIndex x g w) := by
  have hfiles : (emit x.settings b).files =
      (files x b).map (·.toSource x.settings) ++ [(index x b).toSource x.settings] := rfl
  have hpaths : (emit x.settings b).files.map (·.path) =
      (files x b).map (fun f => (f.toSource x.settings).path) ++
        [((index x b).toSource x.settings).path] := by
    rw [hfiles, List.map_append, List.map_map]
    rfl
  have hdistinct : ((emit x.settings b).files.map (·.path)).Nodup ↔ ¬ UsesIndex x g w := by
    rw [hpaths, ← List.concat_eq_append, List.nodup_concat, index_path_mem_iff hg hb]
    exact and_iff_left (interfacePaths_nodup x b)
  have hinterface : ∀ f ∈ files x b, (emit x.settings b).file? (f.toSource x.settings).path =
      some (f.toSource x.settings) := by
    intro f hf
    rw [Output.file?, hfiles, List.find?_append,
      find?_of_nodup (sourcePaths_nodup x b) (List.mem_map_of_mem hf)]
    rfl
  refine ⟨hfiles, hdistinct, fun hclash f hf => ?_, fun hclash => ?_⟩
  · exact find?_of_nodup (hdistinct.mpr hclash) hf
  · obtain ⟨f, hf, hmodule⟩ := (usesIndex_iff hg hb).mp hclash
    have hpath : (f.toSource x.settings).path = ((index x b).toSource x.settings).path :=
      pathOf_module_eq_index.mpr hmodule
    exact ⟨f, hf, hmodule, hpath ▸ hinterface f hf, hinterface⟩

/-- The files of a run, with the namespace `index` as the only cause of a clash. -/
def FilesLocated (x : Generator) (g : TypeGraph) (out : Output) : Prop :=
  ∃ w b, prepare x.settings g = .ok w ∧ x.bindings? g w = some b ∧
    Located x b out (UsesIndex x g w)

theorem files_located {out : Output} (hg : g.Reachable) (h : x.generate? g = some (.ok out)) :
    FilesLocated x g out := by
  obtain ⟨w, b, hw, hb, rfl⟩ := generate?_eq_ok h
  exact ⟨w, b, hw, hb, emit_located hg.coherent hb⟩

/-- The markers, and a hub in each of some namespaces. -/
def hubsIn (nameSpaces : List String) : TypeGraph :=
  TypeGraph.declareAll
    ([{ head :=
         { kind := .classType, nameSpace := "TypedSignalR.Client", name := "HubAttribute" } },
      { head :=
         { kind := .classType, nameSpace := "TypedSignalR.Client", name := "ReceiverAttribute" } },
      { head :=
         { kind := .classType, nameSpace := "Tapper", name := "TranspilationSourceAttribute" } }]
      ++ nameSpaces.map fun nameSpace =>
        { head := { kind := .interface, nameSpace, name := "IHub" }, attributes := [⟨0⟩] }) {}

/-- Namespaces that share a file, and others that only look like that of the index file. -/
def neighbours : TypeGraph := hubsIn ["", "App.index", "global", "index.App"]

private theorem neighbours_reachable : neighbours.Reachable :=
  .declareAll .empty (by decide +kernel)

theorem neighbours_located :
    neighbours.Reachable ∧
      ∃ out, ({} : Generator).generate? neighbours = some (.ok out) ∧
        out.files.map (·.path) =
          ["hubs/App.index.ts", "hubs/global.ts", "hubs/index.App.ts", "hubs/index.ts"] ∧
        FilesLocated {} neighbours out :=
  ⟨neighbours_reachable, _, rfl, by decide +kernel, files_located neighbours_reachable rfl⟩

def indexProgram : TypeGraph := hubsIn ["index"]

/-- A hub in the namespace `index` takes the path of the index file, and is found in its place. -/
theorem indexProgram_paths_clash :
    indexProgram.Reachable ∧
      ∃ out, ({} : Generator).generate? indexProgram = some (.ok out) ∧
        out.files.map (·.path) = ["hubs/index.ts", "hubs/index.ts"] ∧
        ¬ (out.files.map (·.path)).Nodup ∧
        out.file? "hubs/index.ts" = out.files.head? :=
  ⟨.declareAll .empty (by decide +kernel), _, rfl, by decide +kernel, by decide +kernel, rfl⟩

end HubBindings.Client
