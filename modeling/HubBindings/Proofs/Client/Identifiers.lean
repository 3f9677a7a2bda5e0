import HubBindings.Proofs.Client.Imports
import Mathlib.Data.List.Duplicate

/-!
The identifiers that an interface file introduces: imported wrappers and data types, and exported
types.

Types of a program are told apart by their namespaces, and a file uses their simple names. `Clash`
lists the five ways in which one name is introduced twice, `identifiers_introduced` says that there
are no others, and `clashProgram_ambiguous` that each of them happens.
-/

namespace HubBindings.Client

open Contract Generator Text

variable {x : Generator} {g : TypeGraph} {w : WellKnown} {b : Bindings} {cs : List BoundContract}

/-- The identifiers that a file introduces, each as often as it is introduced. -/
def InterfaceFile.identifiers (f : InterfaceFile) : List String :=
  f.imports.flatMap (·.names) ++ f.types.map (·.name)

/-- Why a file of some contracts introduces a name more than once. -/
inductive Clash (x : Generator) (g : TypeGraph) (w : WellKnown) (cs : List BoundContract)
    (name : String) : Prop
  /-- The contracts refer to data types of two modules under the name. -/
  | dataTypes {module module' : String} : DataTypeOf x g w cs module name →
      DataTypeOf x g w cs module' name → module ≠ module' → Clash x g w cs name
  /-- The contracts refer to a wrapper and to a data type. -/
  | wrapperAndDataType {v : Wrapper} {module : String} : WrapperOf x g w cs v →
      v.identifier = name → DataTypeOf x g w cs module name → Clash x g w cs name
  /-- The contracts refer to a wrapper that has the name of a contract. -/
  | wrapperAndContract {v : Wrapper} {c : BoundContract} : WrapperOf x g w cs v →
      v.identifier = name → c ∈ cs → c.name = name → Clash x g w cs name
  /-- The contracts refer to a data type that has the name of a contract. -/
  | dataTypeAndContract {module : String} {c : BoundContract} :
      DataTypeOf x g w cs module name → c ∈ cs → c.name = name → Clash x g w cs name
  /-- Two contracts live in the two namespaces that share a file. -/
  | contracts {c d : BoundContract} : c ∈ cs → c.name = name → c.nameSpace = "" →
      d ∈ cs → d.name = name → d.nameSpace = "global" → Clash x g w cs name

/-! ## Names that occur twice -/

/-- An element occurs twice in lists that are put together if two of the lists have it. -/
theorem one_lt_count_flatMap {α : Type} {f : α → List String} {xs : List α} {name : String}
    (hxs : xs.Nodup) (hf : ∀ x ∈ xs, (f x).Nodup) :
    1 < (xs.flatMap f).count name ↔
      ∃ x ∈ xs, ∃ y ∈ xs, x ≠ y ∧ name ∈ f x ∧ name ∈ f y := by
  induction xs with
  | nil => simp
  | cons x xs ih =>
    obtain ⟨hx, hxs⟩ := List.nodup_cons.mp hxs
    have ih := ih hxs fun y hy => hf y (List.mem_cons_of_mem _ hy)
    rw [List.flatMap_cons, List.count_append]
    by_cases hmem : name ∈ f x
    · have hone : (f x).count name = 1 :=
        List.count_eq_one_of_mem (hf x List.mem_cons_self) hmem
      have hrest : 1 < 1 + (xs.flatMap f).count name ↔ ∃ y ∈ xs, name ∈ f y := by
        rw [← List.mem_flatMap, ← List.count_pos_iff]
        omega
      rw [hone, hrest]
      constructor
      · rintro ⟨y, hy, hname⟩
        refine ⟨x, List.mem_cons_self, y, List.mem_cons_of_mem _ hy, ?_, hmem, hname⟩
        rintro rfl
        exact hx hy
      · rintro ⟨y, hy, z, hz, hne, hy', hz'⟩
        rcases List.mem_cons.mp hy with rfl | hy
        · exact ⟨z, (List.mem_cons.mp hz).resolve_left fun e => hne e.symm, hz'⟩
        · exact ⟨y, hy, hy'⟩
    · have hother : ∀ {y}, y ∈ x :: xs → name ∈ f y → y ∈ xs := by
        intro y hy hname
        exact (List.mem_cons.mp hy).resolve_left fun e => hmem (e ▸ hname)
      rw [List.count_eq_zero_of_not_mem hmem, Nat.zero_add, ih]
      constructor
      · rintro ⟨y, hy, z, hz, h⟩
        exact ⟨y, List.mem_cons_of_mem _ hy, z, List.mem_cons_of_mem _ hz, h⟩
      · rintro ⟨y, hy, z, hz, hne, hy', hz'⟩
        exact ⟨y, hother hy hy', z, hother hz hz', hne, hy', hz'⟩

section Lines

variable {directory name : String} {S : String → String → Prop} {lines : List ImportLine}

theorem Imports.mem_flatMap_names (h : Imports directory S lines) :
    name ∈ lines.flatMap (·.names) ↔ ∃ module, S module name := by
  rw [List.mem_flatMap]
  constructor
  · rintro ⟨l, hl, hname⟩
    obtain ⟨module, hmodule⟩ := h.exists_module hl
    exact ⟨module, (h.mem_names hl hmodule).mp hname⟩
  · rintro ⟨module, hS⟩
    obtain ⟨l, hl, _, hname⟩ := (h.pairs module name).mpr hS
    exact ⟨l, hl, hname⟩

/-- A name is imported twice if it is imported from two modules. -/
theorem Imports.one_lt_count_iff (h : Imports directory S lines) :
    1 < (lines.flatMap (·.names)).count name ↔
      ∃ module module', S module name ∧ S module' name ∧ module ≠ module' := by
  have hnames : ∀ l ∈ lines, l.names.Nodup := fun l hl =>
    (increasing_iff.mpr (h.names l hl).2).imp Ascending.ne_of_lt
  rw [one_lt_count_flatMap h.sources_nodup.of_map hnames]
  constructor
  · rintro ⟨l, hl, l', hl', hne, hname, hname'⟩
    obtain ⟨module, hmodule⟩ := h.exists_module hl
    obtain ⟨module', hmodule'⟩ := h.exists_module hl'
    refine ⟨module, module', (h.mem_names hl hmodule).mp hname,
      (h.mem_names hl' hmodule').mp hname', ?_⟩
    rintro rfl
    exact hne (List.inj_on_of_nodup_map h.sources_nodup hl hl' (hmodule.trans hmodule'.symm))
  · rintro ⟨module, module', hS, hS', hne⟩
    obtain ⟨l, hl, hmodule, hname⟩ := (h.pairs module name).mpr hS
    obtain ⟨l', hl', hmodule', hname'⟩ := (h.pairs module' name).mpr hS'
    refine ⟨l, hl, l', hl', ?_, hname, hname'⟩
    rintro rfl
    exact hne ((String.append_right_inj directory).mp (hmodule.symm.trans hmodule'))

end Lines

/-- Two contracts of one name are written in one file if they live in the namespaces that share
it. -/
theorem one_lt_count_written (hg : g.Coherent) (hb : x.bindings? g w = some b)
    (module name : String) :
    1 < ((written (b.hubs ++ b.receivers) module).map (·.name)).count name ↔
      ∃ c ∈ written (b.hubs ++ b.receivers) module, ∃ d ∈ written (b.hubs ++ b.receivers) module,
        c.name = name ∧ d.name = name ∧ c.nameSpace = "" ∧ d.nameSpace = "global" := by
  have hnodup := written_names_nodup (b.hubs ++ b.receivers) module
  rw [List.map_eq_flatMap, one_lt_count_flatMap hnodup.of_map fun _ _ => List.nodup_singleton _]
  constructor
  · rintro ⟨c, hc, d, hd, hne, hname, hname'⟩
    have hcname := (List.mem_singleton.mp hname).symm
    have hdname := (List.mem_singleton.mp hname').symm
    have hmodule := (mem_written.mp hc).2.trans (mem_written.mp hd).2.symm
    have hq : c.qualifiedName ≠ d.qualifiedName := fun e =>
      hne (List.inj_on_of_nodup_map hnodup hc hd e)
    rcases nameSpaces_of_same_file hg hb (mem_of_mem_written hc) (mem_of_mem_written hd)
      (hcname.trans hdname.symm) hmodule hq with ⟨hns, hns'⟩ | ⟨hns, hns'⟩
    · exact ⟨c, hc, d, hd, hcname, hdname, hns, hns'⟩
    · exact ⟨d, hd, c, hc, hdname, hcname, hns', hns⟩
  · rintro ⟨c, hc, d, hd, hcname, hdname, hns, hns'⟩
    refine ⟨c, hc, d, hd, ?_, List.mem_singleton.mpr hcname.symm,
      List.mem_singleton.mpr hdname.symm⟩
    rintro rfl
    exact absurd (hns.symm.trans hns') (by decide)

/-- A name occurs twice in the image of a list if it is that of an element that occurs twice, or
that of two elements. -/
theorem one_lt_count_map {f : String → String} {names : List String} {name : String} :
    1 < (names.map f).count name ↔
      (∃ a, f a = name ∧ 1 < names.count a) ∨
        ∃ a ∈ names, ∃ a' ∈ names, a ≠ a' ∧ f a = name ∧ f a' = name := by
  simp only [← Nat.succ_le_iff, ← List.duplicate_iff_two_le_count]
  induction names with
  | nil => simp
  | cons b names ih =>
    rw [List.map_cons, List.duplicate_cons_iff, ih]
    constructor
    · rintro (⟨hb, hmem⟩ | ⟨a, ha, htwice⟩ | ⟨a, ha, a', ha', h⟩)
      · obtain ⟨a, ha, hname⟩ := List.mem_map.mp hmem
        by_cases hab : b = a
        · exact .inl ⟨b, hb, List.duplicate_cons_iff.mpr (.inl ⟨rfl, hab ▸ ha⟩)⟩
        · exact .inr ⟨b, List.mem_cons_self, a, List.mem_cons_of_mem _ ha, hab, hb, hname⟩
      · exact .inl ⟨a, ha, htwice.duplicate_cons b⟩
      · exact .inr ⟨a, List.mem_cons_of_mem _ ha, a', List.mem_cons_of_mem _ ha', h⟩
    · rintro (⟨a, ha, htwice⟩ | ⟨a, ha, a', ha', hne, hname, hname'⟩)
      · rcases List.duplicate_cons_iff.mp htwice with ⟨rfl, hmem⟩ | htwice
        · exact .inl ⟨ha, List.mem_map.mpr ⟨b, hmem, ha⟩⟩
        · exact .inr (.inl ⟨a, ha, htwice⟩)
      · rcases List.mem_cons.mp ha with rfl | hmem
        · have hmem' := (List.mem_cons.mp ha').resolve_left hne.symm
          exact .inl ⟨hname, List.mem_map.mpr ⟨a', hmem', hname'⟩⟩
        · rcases List.mem_cons.mp ha' with rfl | hmem'
          · exact .inl ⟨hname', List.mem_map.mpr ⟨a, hmem, hname⟩⟩
          · exact .inr (.inr ⟨a, hmem, a', hmem', hne, hname, hname'⟩)

/-! ## Identifiers of a file -/

/-- The identifiers of the file of a module, and which of them it introduces more than once. -/
structure Introduces (x : Generator) (g : TypeGraph) (w : WellKnown) (cs : List BoundContract)
    (identifiers : List String) : Prop where
  introduced : ∀ name, name ∈ identifiers ↔
    (∃ v, WrapperOf x g w cs v ∧ v.identifier = name) ∨
      (∃ module, DataTypeOf x g w cs module name) ∨ ∃ c ∈ cs, c.name = name
  repeated : ∀ name, 1 < identifiers.count name ↔ Clash x g w cs name
  unambiguous : identifiers.Nodup ↔ ∀ name, ¬ Clash x g w cs name

private theorem clash_iff {name : String} :
    Clash x g w cs name ↔
      ((∃ v, WrapperOf x g w cs v ∧ v.identifier = name) ∧
          ∃ module, DataTypeOf x g w cs module name) ∨
        ((∃ v, WrapperOf x g w cs v ∧ v.identifier = name) ∧ ∃ c ∈ cs, c.name = name) ∨
        ((∃ module, DataTypeOf x g w cs module name) ∧ ∃ c ∈ cs, c.name = name) ∨
        (∃ module module', DataTypeOf x g w cs module name ∧ DataTypeOf x g w cs module' name ∧
          module ≠ module') ∨
        ∃ c ∈ cs, ∃ d ∈ cs, c.name = name ∧ d.name = name ∧ c.nameSpace = "" ∧
          d.nameSpace = "global" := by
  constructor
  · intro h
    cases h with
    | dataTypes hd hd' hne => exact .inr (.inr (.inr (.inl ⟨_, _, hd, hd', hne⟩)))
    | wrapperAndDataType hv hname hd => exact .inl ⟨⟨_, hv, hname⟩, _, hd⟩
    | wrapperAndContract hv hname hc hcname => exact .inr (.inl ⟨⟨_, hv, hname⟩, _, hc, hcname⟩)
    | dataTypeAndContract hd hc hcname => exact .inr (.inr (.inl ⟨⟨_, hd⟩, _, hc, hcname⟩))
    | contracts hc hcname hns hd hdname hns' =>
      exact .inr (.inr (.inr (.inr ⟨_, hc, _, hd, hcname, hdname, hns, hns'⟩)))
  · rintro (⟨⟨v, hv, hname⟩, module, hd⟩ | ⟨⟨v, hv, hname⟩, c, hc, hcname⟩ |
      ⟨⟨module, hd⟩, c, hc, hcname⟩ | ⟨module, module', hd, hd', hne⟩ |
      ⟨c, hc, d, hd, hcname, hdname, hns, hns'⟩)
    · exact .wrapperAndDataType hv hname hd
    · exact .wrapperAndContract hv hname hc hcname
    · exact .dataTypeAndContract hd hc hcname
    · exact .dataTypes hd hd' hne
    · exact .contracts hc hcname hns hd hdname hns'

/-- Wrappers are imported once, so a name that occurs twice is a data type or a contract. -/
theorem introduces_of_imports {names : List String} {lines : List ImportLine}
    (hwrappers : WrapperNames (WrapperOf x g w cs) names)
    (hlines : Imports "../" (DataTypeOf x g w cs) lines)
    (hcontracts : ∀ name, 1 < (cs.map (·.name)).count name ↔
      ∃ c ∈ cs, ∃ d ∈ cs, c.name = name ∧ d.name = name ∧ c.nameSpace = "" ∧
        d.nameSpace = "global") :
    Introduces x g w cs (names ++ lines.flatMap (·.names) ++ cs.map (·.name)) := by
  have hrepeated : ∀ name, 1 < (names ++ lines.flatMap (·.names) ++ cs.map (·.name)).count name ↔
      Clash x g w cs name := by
    intro name
    have honce : names.count name ≤ 1 := List.nodup_iff_count_le_one.mp
      ((increasing_iff.mpr hwrappers.ascend).imp Ascending.ne_of_lt) name
    have hwrapper : (∃ v, WrapperOf x g w cs v ∧ v.identifier = name) ↔ 0 < names.count name := by
      rw [List.count_pos_iff, hwrappers.mem]
    have hdata : (∃ module, DataTypeOf x g w cs module name) ↔
        0 < (lines.flatMap (·.names)).count name := by
      rw [List.count_pos_iff, hlines.mem_flatMap_names]
    have hcontract : (∃ c ∈ cs, c.name = name) ↔ 0 < (cs.map (·.name)).count name := by
      rw [List.count_pos_iff, List.mem_map]
    rw [clash_iff, hwrapper, hdata, hcontract, ← hlines.one_lt_count_iff, ← hcontracts,
      List.count_append, List.count_append]
    omega
  refine ⟨fun name => ?_, hrepeated, ?_⟩
  · rw [List.mem_append, List.mem_append, hwrappers.mem, hlines.mem_flatMap_names, List.mem_map,
      or_assoc]
  · rw [List.nodup_iff_count_le_one]
    refine forall_congr' fun name => ?_
    rw [← hrepeated]
    omega

/-- The identifiers of a file of contracts as it shows them, with the lines that introduce them. -/
structure ShowsIdentifiers (x : Generator) (g : TypeGraph) (w : WellKnown)
    (contracts : List BoundContract) (identifiers : List String) (lines : List Line) : Prop where
  printed : ∃ (imports : List ImportLine) (cs : List BoundContract),
    lines = topLines imports ++ .empty :: cs.flatMap (typeLines x.settings.output.emitDocs) ∧
    imports.flatMap (·.names) ++ cs.map (·.name) =
      identifiers.map (withBreaks x.settings.output.lineEnding)
  /-- A name is shown more than once if it clashes, or if two names differ in line breaks only. -/
  repeated : ∀ name, 1 < (identifiers.map (withBreaks x.settings.output.lineEnding)).count name ↔
    (∃ a, withBreaks x.settings.output.lineEnding a = name ∧ Clash x g w contracts a) ∨
      ∃ a ∈ identifiers, ∃ a' ∈ identifiers, a ≠ a' ∧
        withBreaks x.settings.output.lineEnding a = name ∧
        withBreaks x.settings.output.lineEnding a' = name
  unambiguous : (identifiers.map (withBreaks x.settings.output.lineEnding)).Nodup ↔
    (∀ name, ¬ Clash x g w contracts name) ∧
      StayApart x.settings.output.lineEnding identifiers

private theorem types_of_file {f : InterfaceFile} (hf : f ∈ files x b) :
    f.types = (written (b.hubs ++ b.receivers) f.module).map .ofContract := by
  obtain ⟨module, _, rfl⟩ := mem_all.mp hf
  rfl

private theorem file_introduces (hg : g.Coherent) (hb : x.bindings? g w = some b)
    {f : InterfaceFile}
    (hf : f ∈ files x b) :
    Introduces x g w (written (b.hubs ++ b.receivers) f.module) f.identifiers := by
  obtain ⟨_, names, lines, hwrappers, ⟨⟨hlines, _⟩, _⟩, himports, _⟩ := fileImports hg hb hf
  have hidentifiers : f.identifiers = names ++ lines.flatMap (·.names) ++
      (written (b.hubs ++ b.receivers) f.module).map (·.name) := by
    rw [InterfaceFile.identifiers, himports, types_of_file hf, List.flatMap_append, List.map_map,
      transportLine]
    by_cases hnames : names = []
    · simp [hnames, Function.comp_def, ExportedType.ofContract]
    · simp [hnames, Function.comp_def, ExportedType.ofContract]
  rw [hidentifiers]
  exact introduces_of_imports hwrappers hlines (one_lt_count_written hg hb f.module)

private theorem file_shows (hg : g.Coherent) (hb : x.bindings? g w = some b) {f : InterfaceFile}
    (hf : f ∈ files x b) :
    ShowsIdentifiers x g w (written (b.hubs ++ b.receivers) f.module) f.identifiers
      (interfaceLines x b f) := by
  have hintroduces := file_introduces hg hb hf
  refine ⟨⟨_, _, rfl, ?_⟩, fun name => ?_, ?_⟩
  · rw [InterfaceFile.identifiers, types_of_file hf, List.map_append, List.map_flatMap,
      shownImports, List.flatMap_map, List.map_map, List.map_map, List.map_map]
    rfl
  · rw [one_lt_count_map]
    simp only [hintroduces.repeated]
  · rw [nodup_withBreaks_iff, hintroduces.unambiguous]

/-- The files of a run with their identifiers. -/
def FilesIntroduce (x : Generator) (g : TypeGraph) (out : Output) : Prop :=
  ∃ w b, prepare x.settings g = .ok w ∧ x.bindings? g w = some b ∧ out.files = sources x b ∧
    ∀ f ∈ files x b,
      Introduces x g w (written (b.hubs ++ b.receivers) f.module) f.identifiers ∧
      ShowsIdentifiers x g w (written (b.hubs ++ b.receivers) f.module) f.identifiers
        (interfaceLines x b f)

theorem identifiers_introduced {out : Output} (hg : g.Reachable)
    (h : x.generate? g = some (.ok out)) : FilesIntroduce x g out := by
  obtain ⟨w, b, hw, hb, rfl⟩ := generate?_eq_ok h
  exact ⟨w, b, hw, hb, emit_files x b, fun f hf =>
    ⟨file_introduces hg.coherent hb hf, file_shows hg.coherent hb hf⟩⟩

theorem shopProgram_introduced :
    shopProgram.Reachable ∧
      ∃ out w b, ({} : Generator).generate? shopProgram = some (.ok out) ∧
        prepare {} shopProgram = .ok w ∧ ({} : Generator).bindings? shopProgram w = some b ∧
        (files {} b).map (·.identifiers) =
          [["Item", "IShelf"], ["Subject", "Item", "Page", "Order", "IDesk"]] ∧
        FilesIntroduce {} shopProgram out :=
  ⟨shopProgram_reachable, _, _, _, rfl, rfl, rfl, by decide +kernel,
    identifiers_introduced shopProgram_reachable rfl⟩

/-- Data types of one name in two modules, and one with the name of a wrapper. -/
def clashData : TypeGraph :=
  TypeGraph.declareAll
    [{ head := { kind := .classType, nameSpace := "Data", name := "Item" }, attributes := [⟨2⟩] },
     { head := { kind := .classType, nameSpace := "Stock", name := "Item" }, attributes := [⟨2⟩] },
     { head := { kind := .classType, nameSpace := "Data", name := "Subject" }
       attributes := [⟨2⟩] }] Agreement.streamTypes

/-- A namespace for each kind of clash. -/
def clashProgram : TypeGraph :=
  TypeGraph.declareAll
    [{ head := { kind := .interface, nameSpace := "Parts", name := "IStore" }
       attributes := [⟨0⟩]
       methods :=
        [{ name := "Put", parameters := [⟨"item", ⟨12⟩⟩], returns := ⟨3⟩ },
         { name := "Take", parameters := [⟨"item", ⟨13⟩⟩], returns := ⟨3⟩ }] },
     { head := { kind := .interface, nameSpace := "Feed", name := "IFeed" }
       attributes := [⟨0⟩]
       methods := [{ name := "Upload", parameters := [⟨"items", ⟨15⟩⟩], returns := ⟨3⟩ }] },
     { head := { kind := .interface, nameSpace := "Play", name := "Subject" }
       attributes := [⟨0⟩]
       methods := [{ name := "Upload", parameters := [⟨"items", ⟨9⟩⟩], returns := ⟨3⟩ }] },
     { head := { kind := .interface, nameSpace := "Desk", name := "Item" }
       attributes := [⟨0⟩]
       methods := [{ name := "Put", parameters := [⟨"item", ⟨12⟩⟩], returns := ⟨3⟩ }] },
     { head := { kind := .interface, nameSpace := "", name := "IHub" }, attributes := [⟨0⟩] },
     { head := { kind := .interface, nameSpace := "global", name := "IHub" }
       attributes := [⟨0⟩] }] (clashData.withConstruction ⟨5⟩ [⟨14⟩])

private theorem clashProgram_reachable : clashProgram.Reachable := by
  have h₀ : clashData.Reachable := Agreement.streamTypes_reachable.declareAll (by decide +kernel)
  have h₁ := h₀.withConstruction ⟨5⟩ [⟨14⟩] (by decide +kernel) (by decide +kernel) rfl
  exact h₁.declareAll (by decide +kernel)

/-- Every file of the run introduces a name twice, and nothing is reported. -/
theorem clashProgram_ambiguous :
    clashProgram.Reachable ∧
      ∃ out w b, ({} : Generator).generate? clashProgram = some (.ok out) ∧
        out.diagnostics = [] ∧ prepare {} clashProgram = .ok w ∧
        ({} : Generator).bindings? clashProgram w = some b ∧
        (files {} b).map (fun f => (f.module, f.identifiers)) =
          [("Desk", ["Item", "Item"]), ("Feed", ["Subject", "Subject", "IFeed"]),
           ("Parts", ["Item", "Item", "IStore"]), ("Play", ["Subject", "Subject"]),
           ("global", ["IHub", "IHub"])] ∧
        ∀ f ∈ files {} b, ¬ f.identifiers.Nodup :=
  ⟨clashProgram_reachable, _, _, _, rfl, by decide +kernel, rfl, rfl, by decide +kernel,
    by decide +kernel⟩

end HubBindings.Client
