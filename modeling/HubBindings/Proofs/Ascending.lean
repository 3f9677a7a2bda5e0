import HubBindings.Ascending
import Mathlib.Data.List.Induction

/-!
Ascending lists as sets and tables.

* `mem_insert`: a set holds what was inserted, and `ofList_congr`: nothing else is left of the list
  it was made from;
* `Sorted`, `lookup_alter`: a table in order has one entry for each key, and a change concerns one
  key only;
* `mem_group`: groups are the values of a key in their order, and no group is empty;
* `keys_group`: the keys of groups are the set of all keys;
* `groupSets_eq_group`: sets by key are groups, with the values of a key made a set.
-/

namespace HubBindings.Ascending

section Sets

variable {α : Type} [Ord α] [Std.LawfulEqOrd α]

theorem ne_of_lt {a b : α} (h : compare a b = .lt) : a ≠ b := by
  rintro rfl
  have hself : compare a a = .eq := Std.ReflCmp.compare_self
  rw [hself] at h
  cases h

theorem mem_insert {a x : α} {set : List α} : x ∈ insert a set ↔ x = a ∨ x ∈ set := by
  induction set with
  | nil => simp [insert]
  | cons b rest ih =>
    rw [insert]
    split
    · simp
    · rename_i heq
      cases Std.LawfulEqOrd.eq_of_compare heq
      simp
    · rw [List.mem_cons, List.mem_cons, ih]
      exact or_left_comm

theorem mem_insertAll {x : α} {as set : List α} : x ∈ insertAll as set ↔ x ∈ as ∨ x ∈ set := by
  induction as generalizing set with
  | nil => simp [insertAll]
  | cons a as ih =>
    have hcons : insertAll (a :: as) set = insertAll as (insert a set) := rfl
    rw [hcons, ih, mem_insert, List.mem_cons, or_assoc, or_left_comm]

theorem mem_ofList {x : α} {as : List α} : x ∈ ofList as ↔ x ∈ as := by
  rw [ofList, mem_insertAll]
  simp

/-- Elements ascend, so that each is there once. -/
def Increasing (set : List α) : Prop := set.Pairwise fun a b => compare a b = .lt

variable [Std.TransOrd α]

theorem Increasing.insert {set : List α} (h : Increasing set) (a : α) :
    Increasing (insert a set) := by
  induction set with
  | nil => exact List.pairwise_singleton _ _
  | cons b rest ih =>
    obtain ⟨hfirst, hrest⟩ := List.pairwise_cons.mp h
    rw [Ascending.insert]
    split
    · rename_i hlt
      refine List.pairwise_cons.mpr ⟨?_, h⟩
      intro x hx
      rcases List.mem_cons.mp hx with rfl | hx
      · exact hlt
      · exact Std.TransCmp.lt_trans hlt (hfirst x hx)
    · exact h
    · rename_i hgt
      refine List.pairwise_cons.mpr ⟨?_, ih hrest⟩
      intro x hx
      rcases mem_insert.mp hx with rfl | hx
      · exact Std.OrientedCmp.lt_of_gt hgt
      · exact hfirst x hx

theorem Increasing.insertAll {set : List α} (h : Increasing set) (as : List α) :
    Increasing (insertAll as set) := by
  induction as generalizing set with
  | nil => exact h
  | cons a as ih => exact ih (h.insert a)

theorem increasing_ofList (as : List α) : Increasing (ofList as) :=
  Increasing.insertAll .nil as

/-- Increasing lists with the same elements are equal. -/
theorem Increasing.eq_of_mem_iff {xs ys : List α} (hx : Increasing xs) (hy : Increasing ys)
    (h : ∀ a, a ∈ xs ↔ a ∈ ys) : xs = ys := by
  have hperm : xs.Perm ys :=
    (List.perm_ext_iff_of_nodup (hx.imp ne_of_lt) (hy.imp ne_of_lt)).mpr h
  refine hperm.eq_of_pairwise (fun a b _ _ hab hba => ?_) hx hy
  exact absurd rfl (ne_of_lt (Std.TransCmp.lt_trans hab hba))

theorem ofList_congr {as bs : List α} (h : ∀ a, a ∈ as ↔ a ∈ bs) : ofList as = ofList bs := by
  refine (increasing_ofList as).eq_of_mem_iff (increasing_ofList bs) fun a => ?_
  rw [mem_ofList, mem_ofList, h]

end Sets

section LookUp

variable {κ ν : Type} [DecidableEq κ]

theorem lookup_cons_if (e : κ × ν) (table : List (κ × ν)) (k : κ) :
    (e :: table).lookup k = if k = e.1 then some e.2 else table.lookup k := by
  rw [List.lookup_cons]
  by_cases hk : k = e.1
  · simp [hk]
  · rw [beq_false_of_ne hk, if_neg hk]

theorem mem_of_lookup {table : List (κ × ν)} {k : κ} {v : ν} (h : table.lookup k = some v) :
    (k, v) ∈ table := by
  induction table with
  | nil => cases h
  | cons e rest ih =>
    rw [lookup_cons_if] at h
    split at h
    · rename_i hk
      cases h
      subst hk
      exact List.mem_cons_self
    · exact List.mem_cons_of_mem _ (ih h)

/-- The values under a key. -/
def valuesOf (pairs : List (κ × ν)) (k : κ) : List ν := (pairs.filter fun p => p.1 = k).map (·.2)

theorem mem_valuesOf {pairs : List (κ × ν)} {k : κ} {v : ν} :
    v ∈ valuesOf pairs k ↔ (k, v) ∈ pairs := by
  simp [valuesOf]

end LookUp

section Tables

variable {κ ν : Type} [Ord κ]

/-- Keys ascend, so that each key has one entry. -/
def Sorted (table : List (κ × ν)) : Prop := table.Pairwise fun a b => compare a.1 b.1 = .lt

private theorem group_append_singleton (pairs : List (κ × ν)) (k : κ) (v : ν) :
    group (pairs ++ [(k, v)]) = alter k (fun vs => vs.getD [] ++ [v]) (group pairs) :=
  List.foldl_append

private theorem groupSets_append_singleton {α : Type} [Ord α] (pairs : List (κ × α)) (k : κ)
    (a : α) :
    groupSets (pairs ++ [(k, a)]) = alter k (fun s => insert a (s.getD [])) (groupSets pairs) :=
  List.foldl_append

private theorem ofList_append_singleton {α : Type} [Ord α] (as : List α) (a : α) :
    ofList (as ++ [a]) = insert a (ofList as) :=
  List.foldl_append

/-- A change under a key, and another form of all values. -/
theorem alter_map {μ : Type} {f : ν → μ} {change : Option ν → ν} {change' : Option μ → μ}
    (h : ∀ v, change' (v.map f) = f (change v)) (key : κ) (table : List (κ × ν)) :
    alter key change' (table.map fun e => (e.1, f e.2)) =
      (alter key change table).map fun e => (e.1, f e.2) := by
  induction table with
  | nil => simpa [alter] using h none
  | cons e table ih =>
    simp only [alter, List.map_cons]
    cases compare key e.1 with
    | lt => simpa using h none
    | eq => simpa using h (some e.2)
    | gt => simpa using ih

/-- Sets by key are the groups with their values in order. -/
theorem groupSets_eq_group {α : Type} [Ord α] (pairs : List (κ × α)) :
    groupSets pairs = (group pairs).map fun e => (e.1, ofList e.2) := by
  induction pairs using List.reverseRecOn with
  | nil => rfl
  | append_singleton pairs p ih =>
    rw [groupSets_append_singleton, group_append_singleton, ih]
    refine alter_map (fun vs => ?_) p.1 (group pairs)
    cases vs with
    | none => rfl
    | some vs => exact (ofList_append_singleton vs p.2).symm

private theorem keys_alter (key : κ) (change : Option ν → ν) (table : List (κ × ν)) :
    (alter key change table).map (·.1) = insert key (table.map (·.1)) := by
  induction table with
  | nil => rfl
  | cons e table ih =>
    simp only [alter, List.map_cons, insert]
    cases compare key e.1 with
    | lt => rfl
    | eq => rfl
    | gt => simp only [List.map_cons, ih]

theorem keys_group (pairs : List (κ × ν)) :
    (group pairs).map (·.1) = ofList (pairs.map (·.1)) := by
  induction pairs using List.reverseRecOn with
  | nil => rfl
  | append_singleton pairs p ih =>
    rw [group_append_singleton, keys_alter, ih, List.map_append, ofList, ofList, insertAll,
      insertAll, List.foldl_append]
    rfl

private theorem key_mem_alter [Std.LawfulEqOrd κ] {key k : κ} {change : Option ν → ν}
    {table : List (κ × ν)} :
    k ∈ (alter key change table).map (·.1) ↔ k = key ∨ k ∈ table.map (·.1) := by
  induction table with
  | nil => simp [alter]
  | cons e rest ih =>
    rw [alter]
    split
    · simp
    · rename_i heq
      cases Std.LawfulEqOrd.eq_of_compare heq
      simp
    · rw [List.map_cons, List.mem_cons, ih, List.map_cons, List.mem_cons]
      exact or_left_comm

private theorem lookup_eq_none_of_lt [Std.LawfulEqOrd κ] [DecidableEq κ] {table : List (κ × ν)}
    {key : κ} (h : ∀ e ∈ table, compare key e.1 = .lt) : table.lookup key = none := by
  rw [List.lookup_eq_none_iff]
  intro e he
  simpa using ne_of_lt (h e he)

variable [Std.TransOrd κ] [Std.LawfulEqOrd κ]

theorem Sorted.alter {table : List (κ × ν)} (h : Sorted table) (key : κ) (change : Option ν → ν) :
    Sorted (alter key change table) := by
  induction table with
  | nil => exact List.pairwise_singleton _ _
  | cons e rest ih =>
    obtain ⟨hfirst, hrest⟩ := List.pairwise_cons.mp h
    rw [Ascending.alter]
    split
    · rename_i hlt
      refine List.pairwise_cons.mpr ⟨?_, h⟩
      intro x hx
      rcases List.mem_cons.mp hx with rfl | hx
      · exact hlt
      · exact Std.TransCmp.lt_trans hlt (hfirst x hx)
    · exact List.pairwise_cons.mpr ⟨hfirst, hrest⟩
    · rename_i hgt
      refine List.pairwise_cons.mpr ⟨?_, ih hrest⟩
      intro x hx
      rcases key_mem_alter.mp (List.mem_map_of_mem hx) with hkey | hkey
      · rw [hkey]
        exact Std.OrientedCmp.lt_of_gt hgt
      · obtain ⟨y, hy, e'⟩ := List.mem_map.mp hkey
        rw [← e']
        exact hfirst y hy

theorem Sorted.lookup_of_mem [DecidableEq κ] {table : List (κ × ν)} (h : Sorted table) {k : κ}
    {v : ν} (hmem : (k, v) ∈ table) : table.lookup k = some v := by
  induction table with
  | nil => cases hmem
  | cons e rest ih =>
    obtain ⟨hfirst, hrest⟩ := List.pairwise_cons.mp h
    rcases List.mem_cons.mp hmem with rfl | hmem
    · exact List.lookup_cons_self
    · rw [lookup_cons_if, if_neg (ne_of_lt (hfirst _ hmem)).symm]
      exact ih hrest hmem

theorem Sorted.lookup_alter [DecidableEq κ] {table : List (κ × ν)} (h : Sorted table) (key k : κ)
    (change : Option ν → ν) :
    (Ascending.alter key change table).lookup k =
      if k = key then some (change (table.lookup key)) else table.lookup k := by
  induction table with
  | nil => exact lookup_cons_if _ _ _
  | cons e rest ih =>
    obtain ⟨hfirst, hrest⟩ := List.pairwise_cons.mp h
    rw [Ascending.alter]
    split
    · rename_i hlt
      -- the key comes before every entry, so it has none
      have hnone : (e :: rest).lookup key = none := by
        refine lookup_eq_none_of_lt fun x hx => ?_
        rcases List.mem_cons.mp hx with rfl | hx
        · exact hlt
        · exact Std.TransCmp.lt_trans hlt (hfirst x hx)
      rw [lookup_cons_if, hnone]
    · rename_i heq
      cases Std.LawfulEqOrd.eq_of_compare heq
      rw [lookup_cons_if, lookup_cons_if, lookup_cons_if, if_pos rfl]
      split <;> rfl
    · rename_i hgt
      have hne : key ≠ e.1 := (ne_of_lt (Std.OrientedCmp.lt_of_gt hgt)).symm
      rw [lookup_cons_if, ih hrest, lookup_cons_if, lookup_cons_if, if_neg hne]
      by_cases hk : k = key
      · rw [if_pos hk, if_pos hk, if_neg (hk ▸ hne)]
      · rw [if_neg hk, if_neg hk]

private theorem sorted_group (pairs : List (κ × ν)) : Sorted (group pairs) := by
  induction pairs using List.reverseRecOn with
  | nil => exact .nil
  | append_singleton pairs p ih =>
    rw [group_append_singleton]
    exact ih.alter _ _

variable [DecidableEq κ]

private theorem lookup_group (pairs : List (κ × ν)) (k : κ) :
    (group pairs).lookup k = if valuesOf pairs k = [] then none else some (valuesOf pairs k) := by
  induction pairs using List.reverseRecOn with
  | nil => rfl
  | append_singleton pairs p ih =>
    rw [group_append_singleton, (sorted_group pairs).lookup_alter]
    by_cases hk : k = p.1
    · subst hk
      rw [ih]
      have hvalues : valuesOf (pairs ++ [p]) p.1 = valuesOf pairs p.1 ++ [p.2] := by
        simp [valuesOf]
      by_cases hnil : valuesOf pairs p.1 = [] <;> simp [hvalues, hnil]
    · have hne : ¬ p.1 = k := fun e => hk e.symm
      have hvalues : valuesOf (pairs ++ [p]) k = valuesOf pairs k := by
        simp [valuesOf, hne]
      simp [hk, hvalues, ih]

theorem mem_group {pairs : List (κ × ν)} {k : κ} {vs : List ν} :
    (k, vs) ∈ group pairs ↔ vs = valuesOf pairs k ∧ vs ≠ [] := by
  have hlookup := lookup_group pairs k
  constructor
  · intro hmem
    rw [(sorted_group pairs).lookup_of_mem hmem] at hlookup
    split at hlookup
    · cases hlookup
    · rename_i hne
      cases hlookup
      exact ⟨rfl, hne⟩
  · rintro ⟨rfl, hne⟩
    rw [if_neg hne] at hlookup
    exact mem_of_lookup hlookup

end Tables

end HubBindings.Ascending
