import HubBindings.Proofs.TypeGraph.Answers

/-!
Functions that go down a type.

* `Descends` says that a function on the types of a graph is what a recursion computes, and that the
  recursion ends: its calls are for smaller addresses, and no other function satisfies it;
* `Descends.of_within`: a recursion with smaller calls that runs within some room gives the same for
  every room above the address, so that all the room of a graph is enough;
* names and namespaces, metadata names and texts of types are such functions
  (`name?_descends`, `metadataName?_descends`, `display?_descends`).
-/

namespace HubBindings.TypeGraph

open Sequencing

/-! ## Recursions on addresses -/

section Recursion

variable {β : Type}

/-- The function below an address; from the address on there is only `stop`. -/
def cutOff (stop : β) (ty : TypeId) (f : TypeId → β) (a : TypeId) : β :=
  if a.index < ty.index then f a else stop

theorem cutOff_of_lt {stop : β} {ty a : TypeId} {f : TypeId → β} (h : a.index < ty.index) :
    cutOff stop ty f a = f a := if_pos h

private theorem cutOff_congr {stop : β} {ty : TypeId} {f f' : TypeId → β}
    (h : ∀ a, a.index < ty.index → f a = f' a) : cutOff stop ty f = cutOff stop ty f' := by
  funext a
  by_cases ha : a.index < ty.index
  · rw [cutOff_of_lt ha, cutOff_of_lt ha, h a ha]
  · rw [cutOff, cutOff, if_neg ha, if_neg ha]

/-- The calls that a recursion makes for the types of a graph are for smaller addresses: whatever is
called, nothing changes if all other calls come to nothing. -/
def CallsBelow (g : TypeGraph) (stop : β) (step : (TypeId → β) → TypeId → β) : Prop :=
  ∀ ty, g.Issued ty → ∀ call, step (cutOff stop ty call) ty = step call ty

/-- The function satisfies the equation of a recursion on the types of a graph. -/
def Solves (g : TypeGraph) (step : (TypeId → β) → TypeId → β) (f : TypeId → β) : Prop :=
  ∀ ty, g.Issued ty → f ty = step f ty

/-- On the types of a graph the function is what a recursion with smaller calls computes. -/
structure Descends (g : TypeGraph) (stop : β) (step : (TypeId → β) → TypeId → β)
    (f : TypeId → β) : Prop where
  callsBelow : CallsBelow g stop step
  solves : Solves g step f
  unique : ∀ f', Solves g step f' → ∀ ty, g.Issued ty → f' ty = f ty

variable {g : TypeGraph} {stop : β} {step : (TypeId → β) → TypeId → β}

/-- One level gives the same if the calls for smaller addresses do. -/
theorem CallsBelow.congr (h : CallsBelow g stop step) {ty : TypeId} (hty : g.Issued ty)
    {f f' : TypeId → β} (hf : ∀ a, a.index < ty.index → f a = f' a) : step f ty = step f' ty := by
  rw [← h ty hty f, ← h ty hty f', cutOff_congr hf]

theorem Descends.of_solves {f : TypeId → β} (h : CallsBelow g stop step) (hf : Solves g step f) :
    Descends g stop step f := by
  refine ⟨h, hf, fun f' hf' ty => ?_⟩
  -- induction on the address
  obtain ⟨n⟩ := ty
  induction n using Nat.strongRecOn with
  | ind n ih =>
    intro hty
    rw [hf' _ hty, hf _ hty]
    exact h.congr hty fun a ha => ih a.index ha (hty.of_lt ha)

/-- Any room above the address is enough. -/
theorem CallsBelow.within_congr {within : Nat → TypeId → β}
    (hstep : ∀ room ty, within (room + 1) ty = step (within room) ty)
    (h : CallsBelow g stop step) {room room' : Nat} {ty : TypeId} (hty : g.Issued ty)
    (hroom : ty.index < room) (hroom' : ty.index < room') :
    within room ty = within room' ty := by
  induction room generalizing room' ty with
  | zero => exact absurd hroom (Nat.not_lt_zero _)
  | succ room ih =>
    obtain ⟨room', rfl⟩ := Nat.exists_eq_succ_of_ne_zero (Nat.ne_zero_of_lt hroom')
    rw [hstep, hstep]
    exact h.congr hty fun a ha => ih (hty.of_lt ha) (by omega) (by omega)

theorem Descends.of_within (within : Nat → TypeId → β)
    (hstep : ∀ room ty, within (room + 1) ty = step (within room) ty)
    (h : CallsBelow g stop step) : Descends g stop step (within g.typeCount) := by
  refine .of_solves h fun ty hty => ?_
  have hcount : ty.index < g.typeCount := hty
  rw [← hstep]
  exact h.within_congr hstep hty hcount (Nat.lt_succ_of_lt hcount)

end Recursion

/-! ## Names -/

section Names

variable {β : Type} {g : TypeGraph}

/-- One level of a function that goes through arrays: an array has what `around` makes of its
element, and any other type has its own. -/
def arrayStep (g : TypeGraph) (own : TypeId → Option β) (around : β → β)
    (call : TypeId → Option β) (ty : TypeId) : Option β :=
  match g.element? ty with
  | none => none
  | some none => own ty
  | some (some e) => (call e).map around

private theorem arrayStep_callsBelow (hg : Consistent g) (own : TypeId → Option β)
    (around : β → β) :
    CallsBelow g none (arrayStep g own around) := by
  intro ty hty call
  obtain ⟨o, ho, hlt⟩ := element?_yields hg hty
  cases o with
  | none => rw [arrayStep, arrayStep, ho]
  | some e =>
    rw [arrayStep, arrayStep, ho]
    simp only [cutOff_of_lt (hlt e rfl)]

private theorem peel?_descends (hg : Consistent g) :
    Descends g none (arrayStep g (fun ty => some (ty, 0)) fun p => (p.1, p.2 + 1)) g.peel? :=
  .of_within g.peelWithin (fun _ _ => rfl) (arrayStep_callsBelow hg _ _)

/-- What is read off the innermost element and the number of arrays around goes through arrays. -/
theorem descends_of_peel? (hg : Consistent g) {own : TypeId → Option β} {around : β → β}
    (read : TypeId × Nat → Option β) (hown : ∀ ty, read (ty, 0) = own ty)
    (haround : ∀ root rank, read (root, rank + 1) = (read (root, rank)).map around) :
    Descends g none (arrayStep g own around) fun ty => g.peel? ty >>= read := by
  refine .of_solves (arrayStep_callsBelow hg _ _) fun ty hty => ?_
  obtain ⟨o, ho, _⟩ := element?_yields hg hty
  rw [(peel?_descends hg).solves ty hty, arrayStep, arrayStep, ho]
  cases o with
  | none => exact hown ty
  | some e =>
    cases hpeel : g.peel? e with
    | none => simp [hpeel]
    | some p => simpa [hpeel] using haround p.1 p.2

/-- What the head of a type says. -/
def headText? (g : TypeGraph) (text : TypeHead → String) (ty : TypeId) : Option String := do
  return text (← g.head? ty)

theorem name?_descends (hg : Consistent g) :
    Descends g none (arrayStep g (g.headText? (·.name)) id) g.name? :=
  descends_of_peel? hg (fun p => g.headText? (·.name) p.1) (fun _ => rfl) fun _ _ =>
    (congrFun Option.map_id _).symm

theorem nameSpace?_descends (hg : Consistent g) :
    Descends g none (arrayStep g (g.headText? (·.nameSpace)) id) g.nameSpace? :=
  descends_of_peel? hg (fun p => g.headText? (·.nameSpace) p.1) (fun _ => rfl) fun _ _ =>
    (congrFun Option.map_id _).symm

theorem metadataName?_descends (hg : Consistent g) :
    Descends g none
      (arrayStep g (fun ty => g.definition? ty >>= g.headText? (·.metadataName)) (· ++ "[]"))
      g.metadataName? := by
  have hbrackets : ∀ rank, String.join (List.replicate (rank + 1) "[]") =
      String.join (List.replicate rank "[]") ++ "[]" := by
    intro rank
    rw [List.replicate_succ', String.join_append, String.join_cons, String.join_nil,
      String.append_empty]
  refine descends_of_peel? hg
    (fun p => do
      let h ← g.head? (← g.definition? p.1)
      return h.metadataName ++ String.join (List.replicate p.2 "[]"))
    (fun ty => ?_) fun root rank => ?_
  · simp only [List.replicate_zero, String.join_nil, String.append_empty]
    rfl
  · simp only [hbrackets, Option.bind_eq_bind, Option.map_bind, Function.comp_def, Option.pure_def,
      Option.map_some, String.append_assoc]

/-! ## Texts -/

/-- One level of the text of a type. -/
def displayStep (g : TypeGraph) (call : TypeId → Option String) (ty : TypeId) : Option String := do
  let s ← g.symbol? ty
  match s.form with
  | .array e => return (← call e) ++ "[]"
  | .declared h => return h.keyword.getD h.qualifiedName
  | .constructed _ arguments =>
    let h ← g.head? ty
    if arguments.isEmpty then return h.qualifiedName
    else
      let texts ← arguments.mapM call
      return h.qualifiedName ++ "<" ++ ", ".intercalate texts ++ ">"

private theorem displayStep_callsBelow (hg : Consistent g) : CallsBelow g none (displayStep g) := by
  intro ty hty call
  obtain ⟨s, hs⟩ := issued_iff_symbol?.mp hty
  have hparts : ∀ a ∈ s.form.parts, cutOff none ty call a = call a := by
    have hf : g.form? ty = some s.form := by rw [form?, hs, Option.map_some]
    exact fun a ha => cutOff_of_lt (hg.descends hf a ha)
  simp only [displayStep, hs, Option.bind_eq_bind, Option.bind_some]
  cases hform : s.form with
  | declared h => rfl
  | array e =>
    rw [hform] at hparts
    simp only [hparts e List.mem_cons_self]
  | constructed d as =>
    rw [hform] at hparts
    have harguments : as.mapM (cutOff none ty call) = as.mapM call :=
      mapM_congr fun a ha => hparts a (List.mem_cons_of_mem _ ha)
    simp only [harguments]

theorem display?_descends (hg : Consistent g) : Descends g none (displayStep g) g.display? :=
  .of_within g.displayWithin (fun _ _ => rfl) (displayStep_callsBelow hg)

end Names

end HubBindings.TypeGraph
