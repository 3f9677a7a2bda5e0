import HubBindings.Client.InterfaceFile
import HubBindings.Proofs.Ascending

/-!
Which contracts an interface file holds.

* `mem_firstOccurrences`: a contract is written if it is the first with its qualified name;
* `mem_all`: the file of a module holds the written contracts of that module, in their order;
* `modules_all`: modules ascend, and each has one file.
-/

namespace HubBindings.Client

variable {cs : List BoundContract} {c : BoundContract}

/-- The first contract with a qualified name. -/
def firstNamed (cs : List BoundContract) (qualifiedName : String) : Option BoundContract :=
  cs.find? fun c => c.qualifiedName == qualifiedName

private theorem firstNamed_cons (d : BoundContract) (cs : List BoundContract) (q : String) :
    firstNamed (d :: cs) q = if d.qualifiedName = q then some d else firstNamed cs q := by
  rw [firstNamed, List.find?_cons]
  by_cases hq : d.qualifiedName = q
  · simp [hq]
  · rw [beq_false_of_ne hq, if_neg hq, firstNamed]

theorem mem_firstOccurrences {seen : List String} :
    c ∈ firstOccurrences seen cs ↔
      c.qualifiedName ∉ seen ∧ firstNamed cs c.qualifiedName = some c := by
  induction cs generalizing seen with
  | nil => simp [firstOccurrences, firstNamed]
  | cons d cs ih =>
    rw [firstOccurrences, firstNamed_cons]
    by_cases hq : d.qualifiedName = c.qualifiedName
    · rw [if_pos hq, hq]
      by_cases hseen : c.qualifiedName ∈ seen
      · rw [if_pos (List.contains_iff_mem.mpr hseen), ih]
        simp [hseen]
      · rw [if_neg fun h => hseen (List.contains_iff_mem.mp h), List.mem_cons, ih]
        simp [hseen, eq_comm]
    · have hne : c ≠ d := fun e => hq (e ▸ rfl)
      have hq' : ¬ c.qualifiedName = d.qualifiedName := fun e => hq e.symm
      rw [if_neg hq]
      split
      · exact ih
      · simp [ih, hne, hq']

private theorem firstOccurrences_names_nodup (seen : List String) (cs : List BoundContract) :
    ((firstOccurrences seen cs).map (·.qualifiedName)).Nodup := by
  induction cs generalizing seen with
  | nil => exact .nil
  | cons c cs ih =>
    rw [firstOccurrences]
    split
    · exact ih seen
    · refine List.nodup_cons.mpr ⟨?_, ih _⟩
      intro h
      obtain ⟨d, hd, e⟩ := List.mem_map.mp h
      exact (mem_firstOccurrences.mp hd).1 (e ▸ List.mem_cons_self)

private theorem firstOccurrences_congr {seen seen' : List String}
    (h : ∀ c ∈ cs, c.qualifiedName ∈ seen ↔ c.qualifiedName ∈ seen') :
    firstOccurrences seen cs = firstOccurrences seen' cs := by
  induction cs generalizing seen seen' with
  | nil => rfl
  | cons c cs ih =>
    have hc := h c List.mem_cons_self
    have hrest : ∀ d ∈ cs, d.qualifiedName ∈ seen ↔ d.qualifiedName ∈ seen' := fun d hd =>
      h d (List.mem_cons_of_mem _ hd)
    simp only [firstOccurrences, List.contains_iff_mem]
    by_cases hseen : c.qualifiedName ∈ seen
    · rw [if_pos hseen, if_pos (hc.mp hseen), ih hrest]
    · have hcons : ∀ d ∈ cs, d.qualifiedName ∈ c.qualifiedName :: seen ↔
          d.qualifiedName ∈ c.qualifiedName :: seen' := fun d hd => by
        rw [List.mem_cons, List.mem_cons, hrest d hd]
      rw [if_neg hseen, if_neg fun h => hseen (hc.mpr h), ih hcons]

/-- Which contracts of one name come first does not depend on those of other names. -/
theorem filter_firstOccurrences (p : String → Bool) (seen : List String)
    (cs : List BoundContract) : (firstOccurrences seen cs).filter (fun c => p c.qualifiedName) =
      firstOccurrences seen (cs.filter fun c => p c.qualifiedName) := by
  induction cs generalizing seen with
  | nil => rfl
  | cons c cs ih =>
    rw [firstOccurrences, List.filter_cons]
    cases hp : p c.qualifiedName with
    | true =>
      rw [if_pos rfl, firstOccurrences]
      split
      · exact ih seen
      · rw [List.filter_cons, if_pos hp, ih]
    | false =>
      rw [if_neg Bool.false_ne_true]
      split
      · exact ih seen
      · rw [List.filter_cons, hp, if_neg Bool.false_ne_true, ih]
        -- the name is noted as seen, but no contract of that name is left
        refine firstOccurrences_congr fun d hd => ?_
        have hne : d.qualifiedName ≠ c.qualifiedName := fun e => by
          simp [e, hp] at hd
        simp [hne]

/-- If no two elements have the same key, a search by key finds every element. -/
theorem find?_of_nodup {α κ : Type} [DecidableEq κ] {key : α → κ} {xs : List α} {a : α}
    (hnodup : (xs.map key).Nodup) (ha : a ∈ xs) : xs.find? (fun y => key y == key a) = some a := by
  induction xs with
  | nil => cases ha
  | cons d xs ih =>
    rw [List.map_cons, List.nodup_cons] at hnodup
    rw [List.find?_cons]
    rcases List.mem_cons.mp ha with rfl | ha
    · simp
    · have hne : key d ≠ key a := fun e => hnodup.1 (e ▸ List.mem_map_of_mem ha)
      rw [beq_false_of_ne hne]
      exact ih hnodup.2 ha

theorem firstNamed_of_nodup (hnodup : (cs.map (·.qualifiedName)).Nodup) (hc : c ∈ cs) :
    firstNamed cs c.qualifiedName = some c := find?_of_nodup hnodup hc

/-- A contract has a first of its qualified name. -/
theorem exists_firstNamed (hc : c ∈ cs) :
    ∃ d ∈ cs, d.qualifiedName = c.qualifiedName ∧ firstNamed cs c.qualifiedName = some d := by
  cases h : firstNamed cs c.qualifiedName with
  | none => exact absurd (beq_self_eq_true _) (List.find?_eq_none.mp h c hc)
  | some d => exact ⟨d, List.mem_of_find?_eq_some h, by simpa using List.find?_some h, rfl⟩

theorem firstNamed_append (cs ds : List BoundContract) (q : String) :
    firstNamed (cs ++ ds) q = (firstNamed cs q).or (firstNamed ds q) := List.find?_append

/-! ## Files -/

/-- The contracts that are written in a module. -/
def written (cs : List BoundContract) (module : String) : List BoundContract :=
  (firstOccurrences [] cs).filter fun c => moduleName c.nameSpace = module

theorem mem_written {module : String} :
    c ∈ written cs module ↔
      firstNamed cs c.qualifiedName = some c ∧ moduleName c.nameSpace = module := by
  rw [written, List.mem_filter, mem_firstOccurrences, decide_eq_true_iff]
  simp

/-- Contracts of a name that is in no way part of a module do not change what is written there. -/
theorem written_filter {module name : String}
    (h : ∀ c ∈ cs, c.qualifiedName = name → moduleName c.nameSpace ≠ module) :
    written (cs.filter fun c => c.qualifiedName ≠ name) module = written cs module := by
  rw [written, ← filter_firstOccurrences (fun q => q ≠ name), List.filter_filter, written]
  refine List.filter_congr fun c hc => ?_
  have hmem : c ∈ cs := List.mem_of_find?_eq_some (mem_firstOccurrences.mp hc).2
  by_cases hname : c.qualifiedName = name
  · simp [hname, h c hmem hname]
  · simp [hname]

theorem mem_all {transportModule : String} {file : InterfaceFile} :
    file ∈ InterfaceFile.all transportModule cs ↔
      ∃ module, written cs module ≠ [] ∧
        file = InterfaceFile.ofContracts transportModule module (written cs module) := by
  have hvalues : ∀ module, Ascending.valuesOf
      ((firstOccurrences [] cs).map fun c => (moduleName c.nameSpace, c)) module =
        written cs module := by
    intro module
    simp [Ascending.valuesOf, written, List.filter_map, Function.comp_def]
  rw [InterfaceFile.all, List.mem_map]
  constructor
  · rintro ⟨⟨module, members⟩, hmem, rfl⟩
    obtain ⟨rfl, hne⟩ := Ascending.mem_group.mp hmem
    exact ⟨module, hvalues module ▸ hne, by rw [hvalues]⟩
  · rintro ⟨module, hne, rfl⟩
    exact ⟨(module, written cs module), Ascending.mem_group.mpr ⟨(hvalues module).symm, hne⟩, rfl⟩

/-- The modules that have files. -/
theorem modules_all (transportModule : String) (cs : List BoundContract) :
    (InterfaceFile.all transportModule cs).map (·.module) =
      Ascending.ofList ((firstOccurrences [] cs).map fun c => moduleName c.nameSpace) := by
  have hkeys := Ascending.keys_group
    ((firstOccurrences [] cs).map fun c => (moduleName c.nameSpace, c))
  rw [List.map_map] at hkeys
  rw [InterfaceFile.all, List.map_map]
  exact hkeys

theorem mem_of_mem_written {module : String} (h : c ∈ written cs module) : c ∈ cs :=
  List.mem_of_find?_eq_some (mem_written.mp h).1

/-- Two files of one module are the same. -/
theorem eq_of_module_eq {transportModule : String} {file other : InterfaceFile}
    (hf : file ∈ InterfaceFile.all transportModule cs)
    (ho : other ∈ InterfaceFile.all transportModule cs) (h : other.module = file.module) :
    other = file := by
  obtain ⟨module, _, rfl⟩ := mem_all.mp hf
  obtain ⟨module', _, rfl⟩ := mem_all.mp ho
  cases h
  rfl

/-- No two contracts of a file have the same qualified name. -/
theorem written_names_nodup (cs : List BoundContract) (module : String) :
    ((written cs module).map (·.qualifiedName)).Nodup := by
  have hsub : (written cs module).Sublist (firstOccurrences [] cs) := List.filter_sublist
  exact (firstOccurrences_names_nodup [] cs).sublist (hsub.map _)

end HubBindings.Client
