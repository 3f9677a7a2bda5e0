import HubBindings.Proofs.Agreement
import HubBindings.Proofs.Client.Proxy
import HubBindings.Proofs.Rendering.Mentions
import Mathlib.Data.List.Nodup

/-!
Imports of generated files.

* `RefersTo`: a contract refers to what the types of its bound methods mention, and methods that are
  left out have no part in it;
* `Imports`: lines that import exactly a set of names, in the one way that there is to write them
  (`Imports.unique`);
* `ShownExactly`: what a file shows of such lines, after the pass over its line breaks;
* `files_import_exactly`: every file imports the names that its contracts refer to, and no others;
* `pageProgram_imports_mixed`: lines cannot be told apart by their directory if the transport is
  imported from the same one, and names that differ in line breaks are imported under one name.
-/

namespace HubBindings

namespace Binding

open Sequencing

variable {g : TypeGraph} {w : WellKnown} {rules : List Rule} {c : Contract} {m : ContractMethod}
  {n : Note}

/-! ## What a bound contract refers to -/

/-- What the parameters and the result of a method mention in a role. -/
def MethodMentions (g : TypeGraph) (w : WellKnown) (rules : List Rule) (role : Role)
    (m : ContractMethod) (n : Note) : Prop :=
  (∃ q ∈ wireParameters w m, Mentions g w rules .argument q.type n) ∨
    Mentions g w rules (returnPosition role) m.returns n

private theorem bindParametersBy?_references {references all : References} {ps : List Parameter}
    {bs : List BoundParameter}
    (h : bindParametersBy? g (renderAt? g w rules) c m references ps = some (.ok (bs, all))) :
    all.Holds n ↔ references.Holds n ∨ ∃ q ∈ ps, Mentions g w rules .argument q.type n := by
  induction ps generalizing references bs with
  | nil =>
    cases h
    simp
  | cons p ps ih =>
    simp only [bindParametersBy?] at h
    obtain ⟨rendered, hr, h⟩ := Option.bind_eq_some_iff.mp h
    cases rendered with
    | error e => cases h
    | ok r =>
      obtain ⟨_, _, h⟩ := Option.bind_eq_some_iff.mp h
      obtain ⟨rest, hrest, h⟩ := Option.bind_eq_some_iff.mp h
      cases rest with
      | error d => cases h
      | ok q =>
        cases h
        rw [ih hrest, References.holds_union, renderAt?_mentions hr, or_assoc]
        simp

theorem bindMethod?_references {b : BoundMethod} {references : References}
    (h : bindMethod? g w rules c m = some (.ok (b, references))) :
    references.Holds n ↔ MethodMentions g w rules c.role m n := by
  unfold bindMethod? at h
  obtain ⟨violation, hv, h⟩ := Option.bind_eq_some_iff.mp h
  cases violation with
  | some message => cases h
  | none =>
    obtain ⟨bound, hp, h⟩ := Option.bind_eq_some_iff.mp h
    cases bound with
    | error d => cases h
    | ok q =>
      obtain ⟨rendered, hr, h⟩ := Option.bind_eq_some_iff.mp h
      cases rendered with
      | error e => cases h
      | ok r =>
        obtain ⟨_, _, h⟩ := Option.bind_eq_some_iff.mp h
        cases h
        rw [References.holds_union, renderAt?_mentions hr, bindParametersBy?_references hp,
          or_iff_right References.not_holds_empty, MethodMentions]

private theorem holds_foldl_union {α : Type} (bound : List (α × References)) (r : References) :
    (bound.foldl (fun all q => all.union q.2) r).Holds n ↔
      r.Holds n ∨ ∃ q ∈ bound, q.2.Holds n := by
  induction bound generalizing r with
  | nil => simp
  | cons q bound ih =>
    rw [List.foldl_cons, ih, References.holds_union, or_assoc]
    simp

/-- What the bound methods of a contract mention. -/
def Emits (g : TypeGraph) (w : WellKnown) (rules : List Rule) (c : Contract) (bc : BoundContract)
    (n : Note) : Prop :=
  ∃ m ∈ c.methods, ∃ bm ∈ bc.methods, Binds g w (renderAt? g w rules) c.role m bm ∧
    MethodMentions g w rules c.role m n

private theorem kept_references {ms : List ContractMethod}
    {outcomes : List (Except Diagnostic (BoundMethod × References))}
    (h : List.Forall₂ (fun m o => bindMethod? g w rules c m = some o) ms outcomes) :
    ((kept outcomes).foldl (fun all q => all.union q.2) ({} : References)).Holds n ↔
      ∃ m ∈ ms, ∃ bm ∈ (kept outcomes).map (·.1), Binds g w (renderAt? g w rules) c.role m bm ∧
        MethodMentions g w rules c.role m n := by
  rw [holds_foldl_union, or_iff_right References.not_holds_empty]
  constructor
  · rintro ⟨q, hq, hholds⟩
    obtain ⟨o, hmem, hok⟩ := List.mem_filterMap.mp hq
    obtain ⟨m, hm, hbind⟩ := exists_of_mem_right h hmem
    cases o with
    | error d => cases hok
    | ok q' =>
      cases hok
      exact ⟨m, hm, q.1, List.mem_map_of_mem hq, bindMethodBy?_ok hbind,
        (bindMethod?_references hbind).mp hholds⟩
  · rintro ⟨m, hm, bm, _, hbinds, hmentions⟩
    obtain ⟨o, hmem, hbind⟩ := exists_of_mem_left h hm
    cases o with
    | error d => exact absurd (bindMethodBy?_error hbind) hbinds.not_leftOut
    | ok q =>
      exact ⟨q, List.mem_filterMap.mpr ⟨_, hmem, rfl⟩,
        (bindMethod?_references hbind).mpr hmentions⟩

private theorem bind?_references {bc : BoundContract} {ds : List Diagnostic}
    (h : bind? g w rules c = some (bc, ds)) :
    (∀ x, x ∈ bc.wrappers ↔ Emits g w rules c bc (.wrapper x)) ∧
      ∀ i, i ∈ bc.imports ↔ ∃ d, Emits g w rules c bc (.dataType d) ∧ import? g d = some i := by
  unfold bind? at h
  obtain ⟨outcomes, ho, h⟩ := Option.bind_eq_some_iff.mp h
  obtain ⟨imports, hi, h⟩ := Option.bind_eq_some_iff.mp h
  cases h
  have hemits := fun n => kept_references (n := n) (mapM_eq_some_iff.mp ho)
  refine ⟨fun x => hemits (.wrapper x), fun i => ?_⟩
  rw [Ascending.mem_ofList, mem_of_mapM hi]
  exact exists_congr fun d => and_congr_left fun _ => hemits (.dataType d)

end Binding

namespace Client

open Contract Generator Binding Sequencing Text

variable {x : Generator} {g : TypeGraph} {w : WellKnown} {b : Bindings}

/-- A bound contract of a run with the contract it is made from. -/
def BoundFrom (x : Generator) (g : TypeGraph) (w : WellKnown) (c : Contract) (bc : BoundContract) :
    Prop :=
  ∃ group ∈ candidates g w (scope x.settings) c.role, group.1 = bc.qualifiedName ∧
    ∃ discovered bound,
      ofFragments? g w x.settings.methodStyle c.role group.2 = some (some c, discovered) ∧
      bind? g w x.allRules c = some (bc, bound)

/-- What a contract of a run refers to. -/
def RefersTo (x : Generator) (g : TypeGraph) (w : WellKnown) (bc : BoundContract) (n : Note) :
    Prop :=
  ∃ c, BoundFrom x g w c bc ∧ Emits g w x.allRules c bc n

private theorem exists_boundFrom (hg : g.Coherent) (hb : x.bindings? g w = some b)
    {bc : BoundContract}
    (hbc : bc ∈ b.hubs ++ b.receivers) : ∃ c, BoundFrom x g w c bc := by
  obtain ⟨role, group, hgroup, hkey, c, discovered, bound, hc, hbind⟩ :=
    bindings?_comesFrom hg hb hbc
  obtain ⟨rfl, _⟩ := ofFragments?_methods hc
  exact ⟨c, group, hgroup, hkey, discovered, bound, hc, hbind⟩

section Run

variable (hg : g.Coherent) (hb : x.bindings? g w = some b) {bc : BoundContract}
  (hbc : bc ∈ b.hubs ++ b.receivers)
include hg hb hbc

private theorem mem_wrappers_iff {v : Wrapper} :
    v ∈ bc.wrappers ↔ RefersTo x g w bc (.wrapper v) := by
  constructor
  · intro hv
    obtain ⟨c, hc⟩ := exists_boundFrom hg hb hbc
    obtain ⟨_, _, _, _, _, _, hbind⟩ := id hc
    exact ⟨c, hc, ((bind?_references hbind).1 v).mp hv⟩
  · rintro ⟨c, ⟨_, _, _, _, _, _, hbind⟩, hemits⟩
    exact ((bind?_references hbind).1 v).mpr hemits

private theorem mem_imports_iff {i : TypeImport} :
    i ∈ bc.imports ↔ ∃ d, RefersTo x g w bc (.dataType d) ∧ import? g d = some i := by
  constructor
  · intro hi
    obtain ⟨c, hc⟩ := exists_boundFrom hg hb hbc
    obtain ⟨_, _, _, _, _, _, hbind⟩ := id hc
    obtain ⟨d, hemits, hd⟩ := ((bind?_references hbind).2 i).mp hi
    exact ⟨d, ⟨c, hc, hemits⟩, hd⟩
  · rintro ⟨d, ⟨c, ⟨_, _, _, _, _, _, hbind⟩, hemits⟩, hd⟩
    exact ((bind?_references hbind).2 i).mpr ⟨d, hemits, hd⟩

end Run

/-! ## Import lines -/

/-- Lines that import exactly a set of names from the modules of a directory: one line for each
module, with all in ascending order. -/
structure Imports (directory : String) (S : String → String → Prop) (lines : List ImportLine) :
    Prop where
  modules : ∃ modules : List String, modules.Pairwise (· < ·) ∧
    lines.map (·.source) = modules.map (directory ++ ·)
  names : ∀ l ∈ lines, l.names ≠ [] ∧ l.names.Pairwise (· < ·)
  pairs : ∀ module name,
    (∃ l ∈ lines, l.source = directory ++ module ∧ name ∈ l.names) ↔ S module name

theorem increasing_iff {xs : List String} :
    Ascending.Increasing xs ↔ xs.Pairwise (· < ·) :=
  List.Pairwise.iff fun {_ _} => compareOfLessAndEq_eq_lt

section Lines

variable {directory : String} {S : String → String → Prop} {lines lines' : List ImportLine}

theorem Imports.mem_modules (h : Imports directory S lines) {modules : List String}
    (hsources : lines.map (·.source) = modules.map (directory ++ ·)) {module : String} :
    module ∈ modules ↔ ∃ name, S module name := by
  constructor
  · intro hmem
    have hsource : directory ++ module ∈ lines.map (·.source) :=
      hsources ▸ List.mem_map_of_mem hmem
    obtain ⟨l, hl, e⟩ := List.mem_map.mp hsource
    obtain ⟨name, hname⟩ := List.exists_mem_of_ne_nil _ (h.names l hl).1
    exact ⟨name, (h.pairs module name).mp ⟨l, hl, e, hname⟩⟩
  · rintro ⟨name, hS⟩
    obtain ⟨l, hl, e, _⟩ := (h.pairs module name).mpr hS
    have hsource : l.source ∈ modules.map (directory ++ ·) := hsources ▸ List.mem_map_of_mem hl
    obtain ⟨module', hmem, e'⟩ := List.mem_map.mp hsource
    cases String.append_right_inj directory |>.mp (e'.trans e)
    exact hmem

theorem Imports.exists_module (h : Imports directory S lines) {l : ImportLine} (hl : l ∈ lines) :
    ∃ module, l.source = directory ++ module := by
  obtain ⟨modules, _, hsources⟩ := h.modules
  obtain ⟨module, _, e⟩ := List.mem_map.mp (hsources ▸ List.mem_map_of_mem hl)
  exact ⟨module, e.symm⟩

theorem Imports.sources_nodup (h : Imports directory S lines) : (lines.map (·.source)).Nodup := by
  obtain ⟨modules, hascend, hsources⟩ := h.modules
  rw [hsources]
  refine List.Nodup.map (fun _ _ => (String.append_right_inj directory).mp) ?_
  exact (increasing_iff.mpr hascend).imp Ascending.ne_of_lt

theorem Imports.mem_names (h : Imports directory S lines) {l : ImportLine} (hl : l ∈ lines)
    {module name : String} (hsource : l.source = directory ++ module) :
    name ∈ l.names ↔ S module name := by
  constructor
  · intro hname
    exact (h.pairs module name).mp ⟨l, hl, hsource, hname⟩
  · intro hS
    obtain ⟨l', hl', hsource', hname⟩ := (h.pairs module name).mpr hS
    cases List.inj_on_of_nodup_map h.sources_nodup hl hl' (hsource.trans hsource'.symm)
    exact hname

/-- There is one way to import a set of names. -/
theorem Imports.unique (h : Imports directory S lines) (h' : Imports directory S lines') :
    lines = lines' := by
  obtain ⟨modules, hascend, hsources⟩ := h.modules
  obtain ⟨modules', hascend', hsources'⟩ := h'.modules
  have hmodules : modules = modules' :=
    (increasing_iff.mpr hascend).eq_of_mem_iff (increasing_iff.mpr hascend') fun module =>
      (h.mem_modules hsources).trans (h'.mem_modules hsources').symm
  have hsame : lines.map (·.source) = lines'.map (·.source) := by
    rw [hsources, hsources', hmodules]
  rw [← List.forall₂_eq_eq_eq]
  refine forall₂_imp_of_mem (forall₂_of_map_eq_map hsame) fun l hl l' hl' hsource => ?_
  obtain ⟨module, _, hmodule⟩ := List.mem_map.mp (hsources ▸ List.mem_map_of_mem hl)
  have hnames : l.names = l'.names := by
    refine (increasing_iff.mpr (h.names l hl).2).eq_of_mem_iff
      (increasing_iff.mpr (h'.names l' hl').2) fun name => ?_
    rw [h.mem_names hl hmodule.symm, h'.mem_names hl' (hsource.symm.trans hmodule.symm)]
  cases l
  cases l'
  cases hnames
  cases hsource
  rfl

end Lines

private theorem importLines_imports (directory : String) (imports : List TypeImport) :
    Imports directory (fun module name => ∃ i ∈ imports, moduleName i.nameSpace = module ∧
      i.name = name) (importLines directory imports) := by
  let pairs := imports.map fun i => (moduleName i.nameSpace, i.name)
  have hlines : importLines directory imports = (Ascending.group pairs).map fun e =>
      { names := Ascending.ofList e.2, source := directory ++ e.1 } := by
    rw [importLines, Ascending.groupSets_eq_group, List.map_map]
    rfl
  rw [hlines]
  refine ⟨⟨_, increasing_iff.mp (Ascending.increasing_ofList (pairs.map (·.1))), ?_⟩, ?_, ?_⟩
  · rw [← Ascending.keys_group, List.map_map, List.map_map]
    rfl
  · intro l hl
    obtain ⟨⟨module, names⟩, hmem, rfl⟩ := List.mem_map.mp hl
    obtain ⟨name, hname⟩ := List.exists_mem_of_ne_nil _ (Ascending.mem_group.mp hmem).2
    exact ⟨List.ne_nil_of_mem (Ascending.mem_ofList.mpr hname),
      increasing_iff.mp (Ascending.increasing_ofList _)⟩
  · intro module name
    have hpairs : (∃ i ∈ imports, moduleName i.nameSpace = module ∧ i.name = name) ↔
        name ∈ Ascending.valuesOf pairs module := by
      rw [Ascending.mem_valuesOf]
      simp [pairs]
    rw [hpairs]
    constructor
    · rintro ⟨l, hl, hsource, hname⟩
      obtain ⟨⟨module', names⟩, hmem, rfl⟩ := List.mem_map.mp hl
      cases (String.append_right_inj directory).mp hsource
      obtain ⟨rfl, _⟩ := Ascending.mem_group.mp hmem
      exact Ascending.mem_ofList.mp hname
    · intro hname
      have hmem := Ascending.mem_group.mpr ⟨rfl, List.ne_nil_of_mem hname⟩
      exact ⟨_, List.mem_map_of_mem hmem, rfl, Ascending.mem_ofList.mpr hname⟩

/-! ## Files -/

/-- The wrappers that contracts refer to. -/
def WrapperOf (x : Generator) (g : TypeGraph) (w : WellKnown) (cs : List BoundContract)
    (v : Wrapper) : Prop :=
  ∃ bc ∈ cs, RefersTo x g w bc (.wrapper v)

/-- The data types that contracts refer to, by module and name. -/
def DataTypeOf (x : Generator) (g : TypeGraph) (w : WellKnown) (cs : List BoundContract)
    (module name : String) : Prop :=
  ∃ bc ∈ cs, ∃ d nameSpace, RefersTo x g w bc (.dataType d) ∧ g.nameSpace? d = some nameSpace ∧
    moduleName nameSpace = module ∧ g.name? d = some name

/-- Names of exactly a set of wrappers, in ascending order. -/
structure WrapperNames (U : Wrapper → Prop) (names : List String) : Prop where
  ascend : names.Pairwise (· < ·)
  mem : ∀ name, name ∈ names ↔ ∃ v, U v ∧ v.identifier = name

/-- Lines that import exactly a set of names, and the only ones that do. -/
def ImportsExactly (directory : String) (S : String → String → Prop) (lines : List ImportLine) :
    Prop :=
  Imports directory S lines ∧ ∀ lines', Imports directory S lines' → lines' = lines

private theorem importLines_exactly {directory : String} {S : String → String → Prop}
    {imports : List TypeImport}
    (h : ∀ module name, (∃ i ∈ imports, moduleName i.nameSpace = module ∧ i.name = name) ↔
      S module name) : ImportsExactly directory S (importLines directory imports) := by
  obtain ⟨hmodules, hnames, hpairs⟩ := importLines_imports directory imports
  have himports : Imports directory S (importLines directory imports) :=
    ⟨hmodules, hnames, fun module name => (hpairs module name).trans (h module name)⟩
  exact ⟨himports, fun _ h' => h'.unique himports⟩

private theorem identifier_lt {u v : Wrapper} (h : compare u v = .lt) :
    u.identifier < v.identifier := by
  revert h
  cases u <;> cases v <;> decide

/-! ## Lines as files show them -/

/-- Whether a module is given by a path in a directory. -/
def isUnder (directory source : String) : Bool :=
  directory.toList.isPrefixOf source.toList

/-- Lines that import exactly a set of names, and how a file shows them: as they are if the line
breaks of all names have the form of the file, and otherwise not. -/
structure ShownExactly (x : Generator) (directory : String) (S : String → String → Prop)
    (lines : List ImportLine) : Prop where
  declared : ImportsExactly directory S lines
  shown_iff : ImportsExactly directory S (shownImports x lines) ↔
    ∀ module name, S module name →
      BreaksBy x.settings.output.lineEnding module ∧ BreaksBy x.settings.output.lineEnding name

private theorem map_eq_self_iff {α : Type} {f : α → α} {as : List α} :
    as.map f = as ↔ ∀ a ∈ as, f a = a := by
  have h : as.map f = as.map id ↔ ∀ a ∈ as, f a = id a := List.map_eq_map_iff
  rwa [List.map_id] at h

private theorem withBreaks_importLine_iff {e : LineEnding} {l : ImportLine} :
    l.withBreaks e = l ↔ (∀ name ∈ l.names, BreaksBy e name) ∧ BreaksBy e l.source := by
  rw [ImportLine.withBreaks, ImportLine.mk.injEq, map_eq_self_iff]
  simp only [withBreaks_eq_self_iff]

private theorem shownImports_append (lines lines' : List ImportLine) :
    shownImports x (lines ++ lines') = shownImports x lines ++ shownImports x lines' :=
  List.map_append

section Shown

variable {directory : String} {S : String → String → Prop} {lines : List ImportLine}
  (hsolid : isSolid directory = true)
include hsolid

private theorem breaksBy_solid_append_iff {e : LineEnding} {module : String} :
    BreaksBy e (directory ++ module) ↔ BreaksBy e module := by
  rw [← withBreaks_eq_self_iff, withBreaks_solid_append hsolid, String.append_right_inj,
    withBreaks_eq_self_iff]

/-- Lines are shown as they are exactly if the line breaks of all that they import have the form of
the file. -/
theorem shownImports_eq_self_iff (h : Imports directory S lines) :
    shownImports x lines = lines ↔ ∀ module name, S module name →
      BreaksBy x.settings.output.lineEnding module ∧
        BreaksBy x.settings.output.lineEnding name := by
  rw [shownImports, map_eq_self_iff]
  simp only [withBreaks_importLine_iff]
  constructor
  · intro hall module name hS
    obtain ⟨l, hl, hsource, hname⟩ := (h.pairs module name).mpr hS
    obtain ⟨hnames, hbreaks⟩ := hall l hl
    rw [hsource, breaksBy_solid_append_iff hsolid] at hbreaks
    exact ⟨hbreaks, hnames name hname⟩
  · intro hall l hl
    obtain ⟨module, hsource⟩ := h.exists_module hl
    have hname : ∀ name ∈ l.names, S module name := fun name => (h.mem_names hl hsource).mp
    obtain ⟨first, hfirst⟩ := List.exists_mem_of_ne_nil _ (h.names l hl).1
    rw [hsource, breaksBy_solid_append_iff hsolid]
    exact ⟨fun name hmem => (hall module name (hname name hmem)).2,
      (hall module first (hname first hfirst)).1⟩

private theorem shownExactly (h : ImportsExactly directory S lines) :
    ShownExactly x directory S lines := by
  refine ⟨h, ?_⟩
  rw [← shownImports_eq_self_iff hsolid h.1]
  constructor
  · intro hshown
    exact h.2 _ hshown.1
  · intro hsame
    rw [hsame]
    exact h

private theorem isUnder_withBreaks (e : LineEnding) (source : String) :
    isUnder directory (withBreaks e source) = isUnder directory source := by
  rw [Bool.eq_iff_iff, isUnder, isUnder, List.isPrefixOf_iff_prefix, List.isPrefixOf_iff_prefix]
  exact prefix_withBreaks_iff (unbroken_of_solid hsolid)

private theorem isUnder_shown (h : Imports directory S lines) {l : ImportLine}
    (hl : l ∈ shownImports x lines) : isUnder directory l.source = true := by
  obtain ⟨l, hmem, rfl⟩ := List.mem_map.mp hl
  obtain ⟨module, hsource⟩ := h.exists_module hmem
  rw [ImportLine.withBreaks, isUnder_withBreaks hsolid, hsource, isUnder,
    List.isPrefixOf_iff_prefix, String.toList_append]
  exact List.prefix_append _ _

/-- Lines of another directory are not under this one, if neither is a part of the other. -/
theorem not_isUnder_shown {other : String} (h : Imports other S lines)
    (hother : ¬ directory.toList <+: other.toList)
    (hdirectory : ¬ other.toList <+: directory.toList)
    {l : ImportLine} (hl : l ∈ shownImports x lines) : isUnder directory l.source = false := by
  obtain ⟨l, hmem, rfl⟩ := List.mem_map.mp hl
  obtain ⟨module, hsource⟩ := h.exists_module hmem
  rw [ImportLine.withBreaks, isUnder_withBreaks hsolid, hsource, isUnder, Bool.eq_false_iff, ne_eq,
    List.isPrefixOf_iff_prefix, String.toList_append]
  intro hprefix
  rcases List.prefix_or_prefix_of_prefix hprefix (List.prefix_append _ _) with h | h
  · exact hother h
  · exact hdirectory h

end Shown

section Run

variable (hg : g.Coherent) (hb : x.bindings? g w = some b) {cs : List BoundContract}
  (hcs : ∀ bc ∈ cs, bc ∈ b.hubs ++ b.receivers)
include hg hb hcs

private theorem wrappersOf_names :
    WrapperNames (WrapperOf x g w cs) ((wrappersOf cs).map (·.identifier)) := by
  refine ⟨?_, fun name => ?_⟩
  · rw [List.pairwise_map]
    exact (Ascending.increasing_ofList _).imp identifier_lt
  · rw [List.mem_map]
    refine exists_congr fun v => and_congr_left fun _ => ?_
    rw [wrappersOf, Ascending.mem_ofList, List.mem_flatMap]
    exact exists_congr fun bc => and_congr_right fun hbc => mem_wrappers_iff hg hb (hcs bc hbc)

private theorem dataTypes_exactly :
    ImportsExactly "../" (DataTypeOf x g w cs) (importLines "../" (cs.flatMap (·.imports))) := by
  refine importLines_exactly fun module name => ?_
  constructor
  · rintro ⟨i, hi, rfl, rfl⟩
    obtain ⟨bc, hbc, hi⟩ := List.mem_flatMap.mp hi
    obtain ⟨d, hrefers, hd⟩ := (mem_imports_iff hg hb (hcs bc hbc)).mp hi
    obtain ⟨nameSpace, hns, hd⟩ := Option.bind_eq_some_iff.mp hd
    obtain ⟨name, hname, hd⟩ := Option.bind_eq_some_iff.mp hd
    cases hd
    exact ⟨bc, hbc, d, nameSpace, hrefers, hns, rfl, hname⟩
  · rintro ⟨bc, hbc, d, nameSpace, hrefers, hns, rfl, hname⟩
    refine ⟨{ nameSpace, name }, List.mem_flatMap.mpr ⟨bc, hbc, ?_⟩, rfl, rfl⟩
    refine (mem_imports_iff hg hb (hcs bc hbc)).mpr ⟨d, hrefers, ?_⟩
    simp [import?, hns, hname]

end Run

/-- The first import of an interface file, if there are names to import. -/
def transportLine (source : String) (names : List String) : List ImportLine :=
  if names = [] then [] else [{ names, source }]

private theorem transportImport_eq (transportModule : String) (cs : List BoundContract) :
    InterfaceFile.transportImport transportModule cs =
      transportLine transportModule ((wrappersOf cs).map (·.identifier)) := by
  rw [InterfaceFile.transportImport]
  cases wrappersOf cs with
  | nil => rfl
  | cons v vs => rfl

/-- The imports of an interface file are those of the contracts that it exports. -/
structure FileImports (x : Generator) (g : TypeGraph) (w : WellKnown) (b : Bindings)
    (f : InterfaceFile) : Prop where
  printed : interfaceLines x b f = topLines (shownImports x f.imports) ++ .empty ::
    (written (b.hubs ++ b.receivers) f.module).flatMap fun c =>
      typeLines x.settings.output.emitDocs (shown x c)
  imports : ∃ names lines,
    WrapperNames (WrapperOf x g w (written (b.hubs ++ b.receivers) f.module)) names ∧
    ShownExactly x "../" (DataTypeOf x g w (written (b.hubs ++ b.receivers) f.module)) lines ∧
    f.imports = transportLine x.settings.output.transportModule names ++ lines ∧
    shownImports x f.imports = transportLine
      (withBreaks x.settings.output.lineEnding x.settings.output.transportModule) names
        ++ shownImports x lines ∧
    -- no other line has a module of that directory, unless the first one does
    ((shownImports x f.imports).filter (fun i => isUnder "../" i.source) = shownImports x lines ↔
      names = [] ∨ isUnder "../" x.settings.output.transportModule = false)

/-- The imports of the index file are those of all contracts, and the contracts themselves. -/
structure IndexImports (x : Generator) (g : TypeGraph) (w : WellKnown) (b : Bindings) : Prop where
  printed : ∃ rest, aggregateLines x b =
    topLines (shownImports x (index x b).imports) ++ .empty :: .empty :: rest
  imports : ∃ names exported lines,
    WrapperNames (WrapperOf x g w (b.hubs ++ b.receivers)) names ∧
    ShownExactly x "./" (fun module name => ∃ bc ∈ b.hubs ++ b.receivers,
      moduleName bc.nameSpace = module ∧ bc.name = name) exported ∧
    ShownExactly x "../" (DataTypeOf x g w (b.hubs ++ b.receivers)) lines ∧
    shownImports x (index x b).imports =
      { names := "HubConnection" :: names
        source := withBreaks x.settings.output.lineEnding x.settings.output.transportModule }
        :: (shownImports x exported ++ shownImports x lines) ∧
    ((shownImports x (index x b).imports).filter (fun i => isUnder "./" i.source) =
      shownImports x exported ↔ isUnder "./" x.settings.output.transportModule = false) ∧
    ((shownImports x (index x b).imports).filter (fun i => isUnder "../" i.source) =
      shownImports x lines ↔ isUnder "../" x.settings.output.transportModule = false)

/-- A filter takes the same elements of a longer list exactly if it does not take the new one. -/
private theorem filter_cons_eq_iff {α : Type} {p : α → Bool} {a : α} {as kept : List α}
    (h : as.filter p = kept) : (a :: as).filter p = kept ↔ p a = false := by
  cases ha : p a with
  | false => simp [ha, h]
  | true => simp [ha, h]

/-- The lines of a directory and of another one, told apart by their modules. -/
private theorem filter_isUnder {directory other : String} {S T : String → String → Prop}
    {lines lines' : List ImportLine} (h : Imports directory S lines) (h' : Imports other T lines')
    (hsolid : isSolid directory = true) (hapart : ¬ directory.toList <+: other.toList)
    (hapart' : ¬ other.toList <+: directory.toList) :
    (shownImports x lines ++ shownImports x lines').filter (fun i => isUnder directory i.source) =
        shownImports x lines ∧
      (shownImports x lines' ++ shownImports x lines).filter (fun i => isUnder directory i.source) =
        shownImports x lines := by
  have hown := List.filter_eq_self.mpr fun l hl => isUnder_shown (x := x) hsolid h hl
  have hforeign : (shownImports x lines').filter (fun i => isUnder directory i.source) = [] := by
    rw [List.filter_eq_nil_iff]
    intro l hl
    rw [not_isUnder_shown hsolid h' hapart hapart' hl]
    exact Bool.false_ne_true
  rw [List.filter_append, List.filter_append, hown, hforeign]
  exact ⟨List.append_nil _, rfl⟩

private theorem identifiers_withBreaks (e : LineEnding) (vs : List Wrapper) :
    (vs.map (·.identifier)).map (withBreaks e) = vs.map (·.identifier) := by
  have hsolid : ∀ v : Wrapper, isSolid v.identifier = true := by
    rintro (_ | _) <;> decide
  rw [List.map_map]
  exact List.map_congr_left fun v _ => withBreaks_solid (hsolid v)

private theorem shownImports_transportLine (source : String) (vs : List Wrapper) :
    shownImports x (transportLine source (vs.map (·.identifier))) =
      transportLine (withBreaks x.settings.output.lineEnding source) (vs.map (·.identifier)) := by
  unfold transportLine
  by_cases hnames : vs.map (·.identifier) = []
  · rw [if_pos hnames, if_pos hnames]
    rfl
  · rw [if_neg hnames, if_neg hnames, shownImports, List.map_singleton, ImportLine.withBreaks,
      identifiers_withBreaks]

private theorem filter_transportLine {S : String → String → Prop} {lines : List ImportLine}
    (h : Imports "../" S lines) (source : String) (names : List String) :
    (transportLine (withBreaks x.settings.output.lineEnding source) names
        ++ shownImports x lines).filter (fun i => isUnder "../" i.source) = shownImports x lines ↔
      names = [] ∨ isUnder "../" source = false := by
  have hown : (shownImports x lines).filter (fun i => isUnder "../" i.source) =
      shownImports x lines := List.filter_eq_self.mpr fun l hl => isUnder_shown (by decide) h hl
  unfold transportLine
  by_cases hnames : names = []
  · rw [if_pos hnames, List.nil_append, hown]
    exact ⟨fun _ => .inl hnames, fun _ => rfl⟩
  · rw [if_neg hnames, List.singleton_append, filter_cons_eq_iff hown,
      isUnder_withBreaks (by decide), or_iff_right hnames]

section Run

variable (hg : g.Coherent) (hb : x.bindings? g w = some b)
include hg hb

theorem fileImports {f : InterfaceFile} (hf : f ∈ files x b) : FileImports x g w b f := by
  obtain ⟨module, _, rfl⟩ := mem_all.mp hf
  have hcs : ∀ bc ∈ written (b.hubs ++ b.receivers) module, bc ∈ b.hubs ++ b.receivers :=
    fun bc => mem_of_mem_written
  have hlines := dataTypes_exactly hg hb hcs
  have himports : (InterfaceFile.ofContracts x.settings.output.transportModule module
      (written (b.hubs ++ b.receivers) module)).imports = _ :=
    congrArg (· ++ _) (transportImport_eq _ _)
  have hshown := congrArg (shownImports x) himports
  rw [shownImports_append, shownImports_transportLine] at hshown
  refine ⟨by rw [interfaceLines, fileLines, List.flatMap_map], _, _, wrappersOf_names hg hb hcs,
    shownExactly (by decide) hlines, himports, hshown, ?_⟩
  rw [hshown]
  exact filter_transportLine hlines.1 _ _

/-- The contracts that are written have the names of all contracts. -/
theorem exports_exactly :
    ImportsExactly "./" (fun module name => ∃ bc ∈ b.hubs ++ b.receivers,
        moduleName bc.nameSpace = module ∧ bc.name = name)
      (importLines "./" ((firstOccurrences [] (b.hubs ++ b.receivers)).map
        IndexFile.typeImport)) := by
  refine importLines_exactly fun module name => ?_
  constructor
  · rintro ⟨i, hi, rfl, rfl⟩
    obtain ⟨bc, hbc, rfl⟩ := List.mem_map.mp hi
    exact ⟨bc, List.mem_of_find?_eq_some (mem_firstOccurrences.mp hbc).2, rfl, rfl⟩
  · rintro ⟨bc, hbc, rfl, rfl⟩
    obtain ⟨c, hc, hq, hfirst⟩ := exists_firstNamed hbc
    obtain ⟨hname, hns⟩ := names_of_qualifiedName hg hb hc hbc hq
    have hwritten : c ∈ firstOccurrences [] (b.hubs ++ b.receivers) :=
      mem_firstOccurrences.mpr ⟨List.not_mem_nil, hq.symm ▸ hfirst⟩
    exact ⟨_, List.mem_map_of_mem hwritten, congrArg moduleName hns, hname⟩

private theorem indexImports : IndexImports x g w b := by
  have hexports := exports_exactly hg hb
  have hlines : ImportsExactly "../" (DataTypeOf x g w (b.hubs ++ b.receivers))
      (importLines "../" ((b.hubs ++ b.receivers).flatMap (·.imports))) :=
    dataTypes_exactly hg hb fun _ => id
  have hshown : shownImports x (index x b).imports =
      { names := "HubConnection" :: (wrappersOf (b.hubs ++ b.receivers)).map (·.identifier)
        source := withBreaks x.settings.output.lineEnding x.settings.output.transportModule }
        :: (shownImports x (importLines "./" ((firstOccurrences [] (b.hubs ++ b.receivers)).map
              IndexFile.typeImport))
          ++ shownImports x (importLines "../" ((b.hubs ++ b.receivers).flatMap (·.imports)))) := by
    have hnames := identifiers_withBreaks x.settings.output.lineEnding
      (wrappersOf (b.hubs ++ b.receivers))
    have hfirst : withBreaks x.settings.output.lineEnding "HubConnection" = "HubConnection" :=
      withBreaks_solid (by decide)
    rw [← shownImports_append, ← hnames, ← hfirst]
    rfl
  refine ⟨?_, _, _, _, wrappersOf_names hg hb fun _ => id, shownExactly (by decide) hexports,
    shownExactly (by decide) hlines, hshown, ?_, ?_⟩
  · rw [aggregateLines, indexLines]
    simp only [List.append_assoc, List.cons_append, List.nil_append]
    exact ⟨_, rfl⟩
  · rw [hshown, filter_cons_eq_iff
      (filter_isUnder hexports.1 hlines.1 (by decide) (by decide) (by decide)).1]
    rw [isUnder_withBreaks (by decide)]
  · rw [hshown, filter_cons_eq_iff
      (filter_isUnder hlines.1 hexports.1 (by decide) (by decide) (by decide)).2]
    rw [isUnder_withBreaks (by decide)]

end Run

/-- The files of a run with their imports. Every contract comes from a program's interface, so that
what it refers to is known. -/
def FilesImport (x : Generator) (g : TypeGraph) (out : Output) : Prop :=
  ∃ w b, prepare x.settings g = .ok w ∧ x.bindings? g w = some b ∧ out.files = sources x b ∧
    (∀ bc ∈ b.hubs ++ b.receivers, ∃ c, BoundFrom x g w c bc) ∧
    (∀ f ∈ files x b, FileImports x g w b f) ∧ IndexImports x g w b

theorem files_import_exactly {out : Output} (hg : g.Reachable)
    (h : x.generate? g = some (.ok out)) : FilesImport x g out := by
  obtain ⟨w, b, hw, hb, rfl⟩ := generate?_eq_ok h
  exact ⟨w, b, hw, hb, emit_files x b, fun bc hbc => exists_boundFrom hg.coherent hb hbc,
    fun f hf => fileImports hg.coherent hb hf, indexImports hg.coherent hb⟩

/-- Data types of two modules, one of them generic, and a type without a rendering. -/
def shopData : TypeGraph :=
  TypeGraph.declareAll
    [{ head := { kind := .classType, nameSpace := "Data", name := "Item" }, attributes := [⟨2⟩] },
     { head := { kind := .classType, nameSpace := "Data", name := "Page", arity := 1 }
       attributes := [⟨2⟩] },
     { head := { kind := .classType, nameSpace := "Shop", name := "Order" }, attributes := [⟨2⟩] },
     { head := { kind := .classType, nameSpace := "Shop", name := "Draft" }, attributes := [⟨2⟩] },
     { head := { kind := .classType, nameSpace := "Shop", name := "Secret" } }]
    Agreement.streamTypes

/-- Pages of items, a task of one, and a stream of orders. -/
def shopTypes : TypeGraph :=
  ((shopData.withConstruction ⟨13⟩ [⟨12⟩]).withConstruction ⟨4⟩ [⟨17⟩]).withConstruction ⟨5⟩ [⟨14⟩]

/-- An interface with both markers and a receiver, which share the data type `Item`. The method that
mentions `Draft` is left out. -/
def shopProgram : TypeGraph :=
  TypeGraph.declareAll
    [{ head := { kind := .interface, nameSpace := "Shop", name := "IDesk" }
       attributes := [⟨0⟩, ⟨1⟩]
       methods :=
        [{ name := "Browse", returns := ⟨18⟩ },
         { name := "Order", parameters := [⟨"orders", ⟨19⟩⟩], returns := ⟨3⟩ },
         { name := "Keep", parameters := [⟨"draft", ⟨15⟩⟩, ⟨"secret", ⟨16⟩⟩], returns := ⟨3⟩ }] },
     { head := { kind := .interface, nameSpace := "App", name := "IShelf" }
       attributes := [⟨1⟩]
       methods := [{ name := "Put", parameters := [⟨"item", ⟨12⟩⟩], returns := ⟨3⟩ }] }] shopTypes

theorem shopProgram_reachable : shopProgram.Reachable := by
  have h₀ : shopData.Reachable := Agreement.streamTypes_reachable.declareAll (by decide +kernel)
  have h₁ := h₀.withConstruction ⟨13⟩ [⟨12⟩] (by decide +kernel) (by decide +kernel) rfl
  have h₂ := h₁.withConstruction ⟨4⟩ [⟨17⟩] (by decide +kernel) (by decide +kernel) rfl
  have h₃ := h₂.withConstruction ⟨5⟩ [⟨14⟩] (by decide +kernel) (by decide +kernel) rfl
  exact h₃.declareAll (by decide +kernel)

theorem shopProgram_imports :
    shopProgram.Reachable ∧
      ∃ out, ({} : Generator).generate? shopProgram = some (.ok out) ∧
        out.files.length = 3 ∧ out.diagnostics.length = 2 ∧ FilesImport {} shopProgram out :=
  ⟨shopProgram_reachable, _, rfl, by decide +kernel, by decide +kernel,
    files_import_exactly shopProgram_reachable rfl⟩

example : ∃ w b, prepare {} shopProgram = .ok w ∧
    ({} : Generator).bindings? shopProgram w = some b ∧
    (files {} b).map (fun f => (f.module, f.imports.map fun i => (i.names, i.source))) =
      [("App", [(["Item"], "../Data")]),
       ("Shop", [(["Subject"], "@microsoft/signalr"), (["Item", "Page"], "../Data"),
         (["Order"], "../Shop")])] :=
  ⟨_, _, rfl, rfl, by decide +kernel⟩

/-- Hubs with names that differ in line breaks only. -/
def pageProgram : TypeGraph :=
  TypeGraph.declareAll
    [{ head := { kind := .interface, nameSpace := "App", name := "IPage\rOne" }
       attributes := [⟨0⟩], methods := [{ name := "Turn", returns := ⟨3⟩ }] },
     { head := { kind := .interface, nameSpace := "App", name := "IPage\nOne" }
       attributes := [⟨0⟩], methods := [{ name := "Close", returns := ⟨3⟩ }] }] roomProgram

/-- Settings with a module of the transport in the directory of the interface files. -/
def besideTransport : Generator := { settings := { output := { transportModule := "./App" } } }

/-- The module `App` has two lines in the index file, one of them with a name that is no contract
and the other one with the same name twice. -/
theorem pageProgram_imports_mixed :
    pageProgram.Reachable ∧
      ∃ out w b, besideTransport.generate? pageProgram = some (.ok out) ∧ out.diagnostics = [] ∧
        prepare besideTransport.settings pageProgram = .ok w ∧
        besideTransport.bindings? pageProgram w = some b ∧
        out.files = sources besideTransport b ∧
        (b.hubs ++ b.receivers).map (·.name) =
          ["IRoom", "ILobby", "IPage\rOne", "IPage\nOne", "IRoom"] ∧
        (shownImports besideTransport (index besideTransport b).imports).filter
            (fun i => isUnder "./" i.source) =
          [{ names := ["HubConnection"], source := "./App" },
           { names := ["ILobby", "IPage\nOne", "IPage\nOne", "IRoom"], source := "./App" }] ∧
        ⟨0, "import \x7b HubConnection \x7d from './App';"⟩ ∈ aggregateLines besideTransport b ∧
        ⟨0, "import \x7b ILobby, IPage\nOne, IPage\nOne, IRoom \x7d from './App';"⟩
          ∈ aggregateLines besideTransport b :=
  ⟨roomProgram_reachable.declareAll (by decide +kernel), _, _, _, rfl, by decide +kernel, rfl, rfl,
    emit_files _ _, by decide +kernel, by decide +kernel, by decide +kernel, by decide +kernel⟩

end Client

end HubBindings
