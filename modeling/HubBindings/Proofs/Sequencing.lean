import HubBindings.Rendering.Render
import HubBindings.TypeGraph.Build
import Mathlib.Data.List.Forall2

/-!
Computations that carry a state, may fail with an error, and may have no result at all. Both the
operations that build type graphs and the rendering of types have this shape.

* `run_bind_iff` takes a sequence of two computations apart;
* `mapM_eq_some_iff` reads a traversal without state as a relation between two lists, and
  `findM?_eq_some` reads a search as a split of the list;
* `Yields` says that a computation has a result of some kind, and `Both` that two computations have
  results that correspond, with one lemma for each way to put computations together.
-/

namespace HubBindings.Sequencing

variable {ε σ α β : Type}

/-! ## Traversals without state -/

theorem mapM_eq_some_iff {f : α → Option β} {xs : List α} {ys : List β} :
    xs.mapM f = some ys ↔ List.Forall₂ (fun x y => f x = some y) xs ys := by
  induction xs generalizing ys with
  | nil =>
    constructor
    · intro h; cases h; exact .nil
    · intro h; cases h; rfl
  | cons x xs ih =>
    rw [List.mapM_cons]
    constructor
    · intro h
      obtain ⟨y, hy, hrest⟩ := Option.bind_eq_some_iff.mp h
      obtain ⟨ys', hys, e⟩ := Option.bind_eq_some_iff.mp hrest
      cases e
      exact .cons hy (ih.mp hys)
    · intro h
      cases h with
      | cons hy hys => simp [hy, ih.mpr hys]

theorem mapM_congr {f k : α → Option β} {xs : List α} (h : ∀ x ∈ xs, f x = k x) :
    xs.mapM f = xs.mapM k := by
  induction xs with
  | nil => rfl
  | cons x xs ih =>
    rw [List.mapM_cons, List.mapM_cons, h x List.mem_cons_self,
      ih fun y hy => h y (List.mem_cons_of_mem _ hy)]

theorem exists_of_mem_left {R : α → β → Prop} {xs : List α} {ys : List β}
    (h : List.Forall₂ R xs ys) {x : α} (hx : x ∈ xs) : ∃ y ∈ ys, R x y := by
  induction h with
  | nil => cases hx
  | cons hr _ ih =>
    rcases List.mem_cons.mp hx with rfl | hx
    · exact ⟨_, List.mem_cons_self, hr⟩
    · obtain ⟨y, hy, hr⟩ := ih hx
      exact ⟨y, List.mem_cons_of_mem _ hy, hr⟩

theorem exists_of_mem_right {R : α → β → Prop} {xs : List α} {ys : List β}
    (h : List.Forall₂ R xs ys) {y : β} (hy : y ∈ ys) : ∃ x ∈ xs, R x y :=
  exists_of_mem_left h.flip hy

theorem mem_of_mapM {f : α → Option β} {xs : List α} {ys : List β} (h : xs.mapM f = some ys)
    {y : β} : y ∈ ys ↔ ∃ x ∈ xs, f x = some y := by
  have hall := mapM_eq_some_iff.mp h
  refine ⟨fun hy => exists_of_mem_right hall hy, ?_⟩
  rintro ⟨x, hx, hxy⟩
  obtain ⟨y', hy', hxy'⟩ := exists_of_mem_left hall hx
  cases hxy.symm.trans hxy'
  exact hy'

theorem forall₂_imp_of_mem {R S : α → β → Prop} {xs : List α} {ys : List β}
    (h : List.Forall₂ R xs ys) (hRS : ∀ x ∈ xs, ∀ y ∈ ys, R x y → S x y) :
    List.Forall₂ S xs ys := by
  induction h with
  | nil => exact .nil
  | cons hr _ ih =>
    exact .cons (hRS _ List.mem_cons_self _ List.mem_cons_self hr)
      (ih fun x hx y hy => hRS x (List.mem_cons_of_mem _ hx) y (List.mem_cons_of_mem _ hy))

theorem map_eq_map_of_forall₂ {γ : Type} {f : α → γ} {k : β → γ} {xs : List α} {ys : List β}
    (h : List.Forall₂ (fun x y => f x = k y) xs ys) : xs.map f = ys.map k := by
  induction h with
  | nil => rfl
  | cons hr _ ih => rw [List.map_cons, List.map_cons, hr, ih]

theorem forall₂_of_map_eq_map {γ : Type} {f : α → γ} {k : β → γ} {xs : List α} {ys : List β}
    (h : xs.map f = ys.map k) : List.Forall₂ (fun x y => f x = k y) xs ys := by
  have hall : List.Forall₂ (· = ·) (xs.map f) (ys.map k) := by
    rw [h]
    exact List.forall₂_same.mpr fun _ _ => rfl
  exact List.forall₂_map_right_iff.mp (List.forall₂_map_left_iff.mp hall)

theorem any_eq_any_of_forall₂ {R : α → β → Prop} {p : α → Bool} {q : β → Bool} {xs : List α}
    {ys : List β} (h : List.Forall₂ R xs ys) (hpq : ∀ x y, R x y → p x = q y) :
    xs.any p = ys.any q := by
  induction h with
  | nil => rfl
  | cons hr _ ih => rw [List.any_cons, List.any_cons, hpq _ _ hr, ih]

theorem forall₂_filter {R : α → β → Prop} {p : α → Bool} {q : β → Bool} {xs : List α}
    {ys : List β} (h : List.Forall₂ R xs ys) (hpq : ∀ x y, R x y → p x = q y) :
    List.Forall₂ R (xs.filter p) (ys.filter q) :=
  List.rel_filter (fun x y hr => iff_of_eq (congrArg (· = true) (hpq x y hr))) h

theorem forall₂_map_self {R : α → β → Prop} {f : α → β} {xs : List α} (h : ∀ x ∈ xs, R x (f x)) :
    List.Forall₂ R xs (xs.map f) :=
  List.forall₂_map_right_iff.mpr (List.forall₂_same.mpr h)

theorem rel_head?_of_forall₂ {R : α → β → Prop} {xs : List α} {ys : List β}
    (h : List.Forall₂ R xs ys) : Option.Rel R xs.head? ys.head? := by
  cases h with
  | nil => exact .none
  | cons hr _ => exact .some hr

theorem forall₂_of_common {γ : Type} {R : α → β → Prop} {S : α → γ → Prop} {T : β → γ → Prop}
    {xs : List α} {ys : List β} {zs : List γ} (h : List.Forall₂ R xs ys) (h' : List.Forall₂ S xs zs)
    (hT : ∀ x y z, R x y → S x z → T y z) : List.Forall₂ T ys zs := by
  induction h generalizing zs with
  | nil =>
    cases h'
    exact .nil
  | cons hr _ ih =>
    cases h' with
    | cons hs hrest => exact .cons (hT _ _ _ hr hs) (ih hrest)

theorem exists_forall₂_iff {R S : α → β → Prop} {xs : List α} :
    (∃ ys, List.Forall₂ R xs ys ∧ List.Forall₂ S xs ys) ↔ ∀ x ∈ xs, ∃ y, R x y ∧ S x y := by
  induction xs with
  | nil => simp
  | cons x xs ih =>
    rw [List.forall_mem_cons, ← ih]
    constructor
    · rintro ⟨_, hR, hS⟩
      cases hR with
      | cons hr hR =>
        cases hS with
        | cons hs hS => exact ⟨⟨_, hr, hs⟩, _, hR, hS⟩
    · rintro ⟨⟨y, hr, hs⟩, ys, hR, hS⟩
      exact ⟨y :: ys, .cons hr hR, .cons hs hS⟩

theorem forall₂_range_iff {R : α → β → Prop} {xs : List α} {g : Nat → β} :
    List.Forall₂ R xs ((List.range xs.length).map g) ↔
      ∀ (i : Nat) (x : α), xs[i]? = some x → R x (g i) := by
  rw [List.forall₂_iff_get]
  constructor
  · rintro ⟨-, h⟩ i x hx
    obtain ⟨hi, rfl⟩ := List.getElem?_eq_some_iff.mp hx
    simpa using h i hi (by simpa using hi)
  · intro h
    refine ⟨by simp, fun i hi hi' => ?_⟩
    simpa using h i (xs.get ⟨i, hi⟩) (List.getElem?_eq_getElem hi)

theorem forall₂_append_split {R : α → β → Prop} {xs zs : List α} {ws : List β}
    (h : List.Forall₂ R (xs ++ zs) ws) :
    ∃ us vs, ws = us ++ vs ∧ List.Forall₂ R xs us ∧ List.Forall₂ R zs vs := by
  induction xs generalizing ws with
  | nil => exact ⟨[], ws, rfl, .nil, h⟩
  | cons x xs ih =>
    cases h with
    | cons hx hrest =>
      obtain ⟨us, vs, rfl, hxs, hzs⟩ := ih hrest
      exact ⟨_ :: us, vs, rfl, .cons hx hxs, hzs⟩

theorem forall₂_split {R : α → β → Prop} {xs zs : List α} {y : α} {ws : List β}
    (h : List.Forall₂ R (xs ++ y :: zs) ws) :
    ∃ us v vs, ws = us ++ v :: vs ∧ List.Forall₂ R xs us ∧ R y v ∧ List.Forall₂ R zs vs := by
  obtain ⟨us, _, rfl, hxs, hrest⟩ := forall₂_append_split h
  cases hrest with
  | cons hy hzs => exact ⟨us, _, _, rfl, hxs, hy, hzs⟩

/-- Two steps of a traversal, the second only on what the first keeps. -/
theorem forall₂_filterMap {γ δ : Type} {R : α → β → Prop} {f : β → Option γ} {S : γ → δ → Prop}
    {xs : List α} {ys : List β} {zs : List δ} (h : List.Forall₂ R xs ys)
    (h' : List.Forall₂ S (ys.filterMap f) zs) :
    ∃ xs', xs'.Sublist xs ∧
      List.Forall₂ (fun x z => ∃ y c, R x y ∧ f y = some c ∧ S c z) xs' zs := by
  induction h generalizing zs with
  | nil =>
    cases h'
    exact ⟨[], .slnil, .nil⟩
  | @cons x y xs ys hr _ ih =>
    cases hy : f y with
    | none =>
      rw [List.filterMap_cons_none hy] at h'
      obtain ⟨xs', hsub, hall⟩ := ih h'
      exact ⟨xs', hsub.cons x, hall⟩
    | some c =>
      rw [List.filterMap_cons_some hy] at h'
      cases h' with
      | cons hs hrest =>
        obtain ⟨xs', hsub, hall⟩ := ih hrest
        exact ⟨x :: xs', hsub.cons_cons x, .cons ⟨y, c, hr, hy, hs⟩ hall⟩

theorem findM?_cons_true {f : α → Option Bool} {x : α} (h : f x = some true) (xs : List α) :
    (x :: xs).findM? f = some (some x) := by
  simp [List.findM?, h]

theorem findM?_cons_false {f : α → Option Bool} {x : α} (h : f x = some false) (xs : List α) :
    (x :: xs).findM? f = xs.findM? f := by
  simp [List.findM?, h]

theorem findM?_congr {f k : α → Option Bool} {xs : List α} (h : ∀ x ∈ xs, f x = k x) :
    xs.findM? f = xs.findM? k := by
  induction xs with
  | nil => rfl
  | cons x xs ih =>
    rw [List.findM?, List.findM?, h x List.mem_cons_self,
      ih fun y hy => h y (List.mem_cons_of_mem _ hy)]

theorem findM?_append (f : α → Option Bool) (xs ys : List α) :
    (xs ++ ys).findM? f =
      match xs.findM? f with
      | none => none
      | some (some x) => some (some x)
      | some none => ys.findM? f := by
  induction xs with
  | nil => rfl
  | cons x xs ih =>
    cases hx : f x with
    | none => simp [List.findM?, hx]
    | some b =>
      cases b with
      | true => rw [List.cons_append, findM?_cons_true hx, findM?_cons_true hx]
      | false => rw [List.cons_append, findM?_cons_false hx, findM?_cons_false hx, ih]

/-- A search that finds something finds the first that passes the test. -/
theorem findM?_eq_some {f : α → Option Bool} {xs : List α} {x : α}
    (h : xs.findM? f = some (some x)) :
    ∃ before after, xs = before ++ x :: after ∧ (∀ y ∈ before, f y = some false) ∧
      f x = some true := by
  induction xs with
  | nil => cases h
  | cons y ys ih =>
    cases hy : f y with
    | none => simp [List.findM?, hy] at h
    | some b =>
      cases b with
      | true =>
        rw [findM?_cons_true hy] at h
        cases h
        exact ⟨[], ys, rfl, by simp, hy⟩
      | false =>
        rw [findM?_cons_false hy] at h
        obtain ⟨before, after, hys, hbefore, hx⟩ := ih h
        refine ⟨y :: before, after, by rw [hys]; rfl, ?_, hx⟩
        intro z hz
        rcases List.mem_cons.mp hz with rfl | hz
        · exact hy
        · exact hbefore z hz

/-! ## Computations that have a result -/

/-- The computation has a result that satisfies `P`. -/
def Yields (P : α → Prop) (x : Option α) : Prop := ∃ a, x = some a ∧ P a

/-- The computation has a result. -/
abbrev Answers (x : Option α) : Prop := Yields (fun _ => True) x

section Yields

variable {P : α → Prop} {Q : β → Prop} {x : Option α}

theorem Yields.some {a : α} (h : P a) : Yields P (some a) := ⟨a, rfl, h⟩

theorem Yields.mono {P' : α → Prop} (h : Yields P x) (hP : ∀ a, x = .some a → P a → P' a) :
    Yields P' x := by
  obtain ⟨a, hx, ha⟩ := h
  exact ⟨a, hx, hP a hx ha⟩

theorem Yields.answers (h : Yields P x) : Answers x := h.mono fun _ _ _ => trivial

theorem Yields.map {f : α → β} (h : Yields P x) (hf : ∀ a, P a → Q (f a)) : Yields Q (x.map f) := by
  obtain ⟨a, rfl, ha⟩ := h
  exact ⟨f a, rfl, hf a ha⟩

theorem Yields.bind {k : α → Option β} (hx : Yields P x)
    (hk : ∀ a, x = .some a → P a → Yields Q (k a)) : Yields Q (x >>= k) := by
  obtain ⟨a, rfl, ha⟩ := hx
  exact hk a rfl ha

theorem Yields.mapM {f : α → Option β} {as : List α} (h : ∀ a ∈ as, Yields Q (f a)) :
    Yields (fun bs => ∀ b ∈ bs, Q b) (as.mapM f) := by
  induction as with
  | nil => exact ⟨[], rfl, by simp⟩
  | cons a as ih =>
    rw [List.mapM_cons]
    refine .bind (h a List.mem_cons_self) fun b _ hb => ?_
    refine .bind (ih fun a' ha' => h a' (List.mem_cons_of_mem _ ha')) fun bs _ hbs => ?_
    refine .some fun b' hb' => ?_
    rcases List.mem_cons.mp hb' with rfl | hb'
    · exact hb
    · exact hbs b' hb'

/-- A search with a test that has a result has one, and finds at most an element of the list. -/
theorem Yields.findM? {f : α → Option Bool} {as : List α} (h : ∀ a ∈ as, Answers (f a)) :
    Yields (fun o => ∀ a ∈ o, a ∈ as) (as.findM? f) := by
  induction as with
  | nil => exact ⟨none, rfl, by simp⟩
  | cons a as ih =>
    rw [List.findM?]
    refine .bind (h a List.mem_cons_self) fun b _ _ => ?_
    cases b with
    | true => exact .some (by simp)
    | false =>
      refine (ih fun a' ha' => h a' (List.mem_cons_of_mem _ ha')).mono fun o _ ho a' ha' => ?_
      exact List.mem_cons_of_mem _ (ho a' ha')

end Yields

/-! ## Two computations with results -/

/-- Both computations have a result, and the results correspond. -/
def Both (R : α → β → Prop) (x : Option α) (y : Option β) : Prop :=
  ∃ a b, x = some a ∧ y = some b ∧ R a b

section Both

variable {γ δ : Type} {R : α → β → Prop} {S : γ → δ → Prop} {x : Option α} {y : Option β}

theorem Both.some {a : α} {b : β} (h : R a b) : Both R (some a) (some b) := ⟨a, b, rfl, rfl, h⟩

theorem Both.of_map {P : α → Prop} {f : α → β} (hx : Yields P x) (hy : y = x.map f)
    (hR : ∀ a, P a → R a (f a)) : Both R x y := by
  obtain ⟨a, rfl, ha⟩ := hx
  exact ⟨a, f a, rfl, hy, hR a ha⟩

theorem Both.of_eq {y : Option α} (hx : Answers x) (hy : y = x) : Both Eq x y := by
  obtain ⟨a, rfl, _⟩ := hx
  exact ⟨a, a, rfl, hy, rfl⟩

theorem Both.eq {y : Option α} (h : Both Eq x y) : y = x := by
  obtain ⟨a, b, hx, hy, hab⟩ := h
  rw [hx, hy, hab]

theorem Both.mono {R' : α → β → Prop} (h : Both R x y)
    (hR : ∀ a b, x = .some a → y = .some b → R a b → R' a b) : Both R' x y := by
  obtain ⟨a, b, hx, hy, hab⟩ := h
  exact ⟨a, b, hx, hy, hR a b hx hy hab⟩

theorem Both.map {f : α → γ} {k : β → δ} (h : Both R x y) (hf : ∀ a b, R a b → S (f a) (k b)) :
    Both S (x.map f) (y.map k) := by
  obtain ⟨a, b, rfl, rfl, hab⟩ := h
  exact ⟨f a, k b, rfl, rfl, hf a b hab⟩

theorem Both.bind {k : α → Option γ} {l : β → Option δ} (h : Both R x y)
    (hk : ∀ a b, R a b → Both S (k a) (l b)) : Both S (x >>= k) (y >>= l) := by
  obtain ⟨a, b, rfl, rfl, hab⟩ := h
  exact hk a b hab

theorem Both.ite {c : Prop} [Decidable c] {x₁ x₂ : Option α} {y₁ y₂ : Option β}
    (h₁ : c → Both R x₁ y₁) (h₂ : ¬c → Both R x₂ y₂) :
    Both R (if c then x₁ else x₂) (if c then y₁ else y₂) := by
  split
  · exact h₁ ‹_›
  · exact h₂ ‹_›

theorem Both.mapM {f : α → Option γ} {k : β → Option δ} {as : List α} {bs : List β}
    (h : List.Forall₂ R as bs) (hf : ∀ a b, R a b → Both S (f a) (k b)) :
    Both (List.Forall₂ S) (as.mapM f) (bs.mapM k) := by
  induction h with
  | nil => exact .some .nil
  | cons hab _ ih =>
    rw [List.mapM_cons, List.mapM_cons]
    exact .bind (hf _ _ hab) fun c d hcd => .bind ih fun _ _ hrest => .some (.cons hcd hrest)

/-- What the steps of two traversals keep, the traversals keep. -/
theorem Both.foldlM {f : γ → α → Option γ} {k : δ → β → Option δ} {as : List α} {bs : List β}
    (h : List.Forall₂ R as bs)
    (hf : ∀ c d, S c d → ∀ a b, R a b → Both S (f c a) (k d b)) {c : γ} {d : δ} (hcd : S c d) :
    Both S (as.foldlM f c) (bs.foldlM k d) := by
  induction h generalizing c d with
  | nil => exact .some hcd
  | cons hab _ ih =>
    rw [List.foldlM_cons, List.foldlM_cons]
    exact .bind (hf _ _ hcd _ _ hab) fun _ _ hnext => ih hnext

theorem Both.findM? {f : α → Option Bool} {k : β → Option Bool} {as : List α} {bs : List β}
    (h : List.Forall₂ R as bs) (hf : ∀ a b, R a b → Both Eq (f a) (k b)) :
    Both (Option.Rel R) (as.findM? f) (bs.findM? k) := by
  induction h with
  | nil => exact .some .none
  | cons hab _ ih =>
    rw [List.findM?, List.findM?]
    refine .bind (hf _ _ hab) fun c d hcd => ?_
    cases hcd
    cases c with
    | true => exact .some (.some hab)
    | false => exact ih

end Both

/-- Two outcomes: the same error, or values that correspond. -/
inductive Agree (R : α → β → Prop) : Except ε α → Except ε β → Prop
  | ok {a : α} {b : β} : R a b → Agree R (.ok a) (.ok b)
  | error (e : ε) : Agree R (.error e) (.error e)

theorem Agree.bind {γ δ : Type} {R : α → β → Prop} {S : γ → δ → Prop} {x : Except ε α}
    {y : Except ε β} {k : α → Except ε γ} {l : β → Except ε δ} (h : Agree R x y)
    (hk : ∀ a b, R a b → Agree S (k a) (l b)) : Agree S (x >>= k) (y >>= l) := by
  cases h with
  | ok hab => exact hk _ _ hab
  | error e => exact .error e

/-! ## Runs with state and errors -/

/-- Computations with state `σ` and errors `ε`. -/
abbrev Stateful (ε σ : Type) := ExceptT ε (StateT σ Option)

theorem run_get_bind (k : σ → Stateful ε σ β) (s : σ) : (get >>= k).run s = (k s).run s := rfl

theorem run_lift_bind (o : Option α) (k : α → Stateful ε σ β) (s : σ) :
    (liftM o >>= k : Stateful ε σ β).run s = o.bind fun a => (k a).run s := by
  cases o <;> rfl

theorem run_bind (x : Stateful ε σ α) (k : α → Stateful ε σ β) (s : σ) :
    (x >>= k).run s = (x.run s).bind fun (v, s₁) =>
      match v with
      | .ok a => (k a).run s₁
      | .error e => some (.error e, s₁) := by
  change Option.bind (x.run s) _ = _
  congr 1
  funext ⟨v, s₁⟩
  cases v <;> rfl

/-- What runs first in a sequence either fails and ends it, or hands on its value and state. -/
theorem run_bind_iff {x : Stateful ε σ α} {k : α → Stateful ε σ β} {s s' : σ}
    {r : Except ε β} :
    (x >>= k).run s = some (r, s') ↔
      (∃ e, x.run s = some (.error e, s') ∧ r = .error e) ∨
        ∃ a s₁, x.run s = some (.ok a, s₁) ∧ (k a).run s₁ = some (r, s') := by
  rw [run_bind]
  cases hx : x.run s with
  | none => simp
  | some p =>
    obtain ⟨v, s₁⟩ := p
    cases v with
    | error e =>
      simp only [Option.bind_some, Option.some.injEq, Prod.mk.injEq, Except.error.injEq,
        reduceCtorEq, false_and, exists_false, or_false]
      constructor
      · rintro ⟨rfl, rfl⟩; exact ⟨e, ⟨rfl, rfl⟩, rfl⟩
      · rintro ⟨_, ⟨rfl, rfl⟩, rfl⟩; exact ⟨rfl, rfl⟩
    | ok a => simp

/-- A sequence succeeds if both of its parts do. -/
theorem run_bind_ok_iff {x : Stateful ε σ α} {k : α → Stateful ε σ β} {s s' : σ} {b : β} :
    (x >>= k).run s = some (.ok b, s') ↔
      ∃ a s₁, x.run s = some (.ok a, s₁) ∧ (k a).run s₁ = some (.ok b, s') := by
  rw [run_bind_iff]
  simp

/-- What every step of a traversal keeps, the traversal keeps. -/
theorem forM_run_ok {x : α → Stateful ε σ Unit} {I : List α → σ → Prop}
    (step : ∀ before a s s', I before s → (x a).run s = some (.ok (), s') → I (before ++ [a]) s')
    {as before : List α} {s s' : σ} (h : I before s)
    (hrun : (as.forM x).run s = some (.ok (), s')) : I (before ++ as) s' := by
  induction as generalizing before s with
  | nil =>
    cases hrun
    rw [List.append_nil]
    exact h
  | cons a as ih =>
    obtain ⟨_, s₁, ha, hrest⟩ := run_bind_ok_iff.mp hrun
    rw [List.append_cons]
    exact ih (step before a s s₁ h ha) hrest

theorem mapM_run_ok {x : α → Stateful ε σ β} {I : List α → List β → σ → Prop}
    (step : ∀ before done a b s s', I before done s → (x a).run s = some (.ok b, s') →
      I (before ++ [a]) (done ++ [b]) s')
    {as before : List α} {bs done : List β} {s s' : σ} (h : I before done s)
    (hrun : (as.mapM x).run s = some (.ok bs, s')) : I (before ++ as) (done ++ bs) s' := by
  induction as generalizing before done bs s with
  | nil =>
    rw [List.mapM_nil] at hrun
    cases hrun
    rw [List.append_nil, List.append_nil]
    exact h
  | cons a as ih =>
    rw [List.mapM_cons] at hrun
    obtain ⟨b, s₁, ha, hrun⟩ := run_bind_ok_iff.mp hrun
    obtain ⟨rest, s₂, hrest, hrun⟩ := run_bind_ok_iff.mp hrun
    cases hrun
    rw [List.append_cons before, List.append_cons done]
    exact ih (step before done a b s s₁ h ha) hrest

end HubBindings.Sequencing
