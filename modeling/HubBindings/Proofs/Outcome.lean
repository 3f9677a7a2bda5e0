import HubBindings.Proofs.Agreement
import HubBindings.Proofs.Renaming

/-!
When a run fails, and with which error.

* `causes`: everything that can be wrong with a run, in the order in which it is looked for;
* `prepare_failsByFirst`: the first cause that holds is the one reported;
* `generate?_outcome`: nothing else stops a run, whatever the program is like.
-/

namespace HubBindings.Generator

open Sequencing TypeGraph

variable {g : TypeGraph} {α β : Type}

/-! ## Causes -/

/-- No declared type has the metadata name. -/
def Undeclared (g : TypeGraph) (name : String) : Prop :=
  ∀ ty ∈ g.declared, g.metadataName? ty ≠ some name

instance (g : TypeGraph) (name : String) : Decidable (Undeclared g name) :=
  inferInstanceAs (Decidable (∀ ty ∈ g.declared, g.metadataName? ty ≠ some name))

/-- Everything that can be wrong with a run and the error for it, in the order in which it is looked
for. -/
def causes (g : TypeGraph) (s : Settings) : List (Prop × SettingsError) :=
  [(¬ (1 ≤ s.output.indentWidth ∧ s.output.indentWidth ≤ 16),
      Settings.indentOutOfRange s.output.indentWidth),
   (∀ c ∈ s.output.directory.toList, Text.isWhiteSpace c = true, Settings.blankDirectory),
   (Undeclared g s.wellKnown.hubMarker, .missingMarker s.wellKnown.hubMarker),
   (Undeclared g s.wellKnown.receiverMarker, .missingMarker s.wellKnown.receiverMarker),
   (Undeclared g s.wellKnown.dataTypeMarker, .missingMarker s.wellKnown.dataTypeMarker)]

/-- The first of some causes that holds has the error `e`. -/
def FirstHolds (e : SettingsError) : List (Prop × SettingsError) → Prop
  | [] => False
  | (cause, error) :: rest => cause ∧ error = e ∨ ¬ cause ∧ FirstHolds e rest

variable {cs ds : List (Prop × SettingsError)}

private theorem firstHolds_append {e : SettingsError} :
    FirstHolds e (cs ++ ds) ↔ FirstHolds e cs ∨ (∀ c ∈ cs, ¬ c.1) ∧ FirstHolds e ds := by
  induction cs with
  | nil => simp [FirstHolds]
  | cons c cs ih =>
    obtain ⟨cause, error⟩ := c
    rw [List.cons_append, FirstHolds, FirstHolds, ih]
    by_cases h : cause <;> simp [h]

/-- If any cause holds, one is the first. -/
theorem exists_firstHolds_iff : (∃ e, FirstHolds e cs) ↔ ∃ c ∈ cs, c.1 := by
  induction cs with
  | nil => simp [FirstHolds]
  | cons c cs ih =>
    obtain ⟨cause, error⟩ := c
    by_cases h : cause
    · exact ⟨fun _ => ⟨_, List.mem_cons_self, h⟩, fun _ => ⟨error, .inl ⟨h, rfl⟩⟩⟩
    · simpa [FirstHolds, h] using ih

/-- A check fails exactly if one of the causes holds, with the error of the first that does. -/
def FailsByFirst (cs : List (Prop × SettingsError)) (x : Except SettingsError α) : Prop :=
  ∀ e, x = .error e ↔ FirstHolds e cs

theorem FailsByFirst.isOk_iff {x : Except SettingsError α} (h : FailsByFirst cs x) :
    (∃ a, x = .ok a) ↔ ∀ c ∈ cs, ¬ c.1 := by
  have hfails : (∃ e, x = .error e) ↔ ∃ c ∈ cs, c.1 := by
    rw [← exists_firstHolds_iff]
    exact exists_congr h
  cases x with
  | ok a => simpa using hfails
  | error e => simpa using hfails

theorem FailsByFirst.pure {x : Except SettingsError α} (h : ∃ a, x = .ok a) :
    FailsByFirst [] x := by
  obtain ⟨a, rfl⟩ := h
  intro e
  simp [FirstHolds]

/-- Checks one after the other report the first cause of all. -/
theorem FailsByFirst.bind {x : Except SettingsError α} {k : α → Except SettingsError β}
    (hx : FailsByFirst cs x) (hk : ∀ a, FailsByFirst ds (k a)) :
    FailsByFirst (cs ++ ds) (x >>= k) := by
  intro e
  rw [firstHolds_append, ← hx e, ← hx.isOk_iff]
  cases x with
  | ok a =>
    change k a = .error e ↔ _
    simpa using hk a e
  | error e' =>
    change Except.error e' = .error e ↔ _
    simp

/-! ## Checks -/

private theorem validate_failsByFirst (s : Settings) :
    FailsByFirst
      [(¬ (1 ≤ s.output.indentWidth ∧ s.output.indentWidth ≤ 16),
          Settings.indentOutOfRange s.output.indentWidth),
       (∀ c ∈ s.output.directory.toList, Text.isWhiteSpace c = true, Settings.blankDirectory)]
      s.validate := by
  have hindent : (s.output.indentWidth < 1 ∨ Settings.maxIndent < s.output.indentWidth) ↔
      ¬ (1 ≤ s.output.indentWidth ∧ s.output.indentWidth ≤ 16) := by
    simp only [Settings.maxIndent]
    omega
  have hblank : Text.isBlank s.output.directory = true ↔
      ∀ c ∈ s.output.directory.toList, Text.isWhiteSpace c = true := List.all_eq_true
  intro e
  unfold Settings.validate FirstHolds
  rw [if_congr hindent rfl rfl, if_congr hblank rfl rfl]
  split
  · rename_i h
    simp [h]
  · rename_i h
    split
    · rename_i h'
      simpa [h, FirstHolds] using fun _ => h'
    · rename_i h'
      simp [h, h', FirstHolds]

theorem lookup_eq_none_iff (hg : Consistent g) {name : String} :
    g.lookup name = none ↔ Undeclared g name := by
  rw [hg.lookup, List.head?_eq_none_iff, declaredAs, List.filter_eq_nil_iff]
  simp [Undeclared]

private theorem marker_failsByFirst (hg : Consistent g) (name : String) :
    FailsByFirst [(Undeclared g name, .missingMarker name)] (WellKnown.marker g name) := by
  intro e
  rw [FirstHolds, FirstHolds, ← lookup_eq_none_iff hg]
  unfold WellKnown.marker
  cases g.lookup name with
  | none => simp
  | some ty => simp

theorem prepare_failsByFirst (hg : Consistent g) (s : Settings) :
    FailsByFirst (causes g s) (prepare s g) := by
  have hmarker := fun name => marker_failsByFirst hg name
  refine (validate_failsByFirst s).bind fun _ => ?_
  refine (hmarker s.wellKnown.hubMarker).bind fun _ => ?_
  refine (hmarker s.wellKnown.receiverMarker).bind fun _ => ?_
  refine (hmarker s.wellKnown.dataTypeMarker).bind fun _ => (?_ : FailsByFirst [] _)
  exact .pure ⟨_, rfl⟩

/-! ## Runs -/

/-- A run always has a result. -/
theorem generate?_answers (hg : Consistent g) (x : Generator) : Answers (x.generate? g) := by
  obtain ⟨r, _, hr, _⟩ := (Translation.refl hg).generate? x
  exact ⟨r, hr, trivial⟩

theorem generate?_eq_error_iff {x : Generator} {e : SettingsError} :
    x.generate? g = some (.error (.settings e)) ↔ prepare x.settings g = .error e := by
  unfold generate? generateBy?
  cases prepare x.settings g with
  | error e' => simp
  | ok w => simp

/-- A run that is prepared has bindings and succeeds. -/
theorem generate?_of_prepare {x : Generator} {w : WellKnown} (hg : Consistent g)
    (h : prepare x.settings g = .ok w) :
    ∃ b, x.bindings? g w = some b ∧ x.generate? g = some (.ok (emit x.settings b)) := by
  obtain ⟨r, hr, _⟩ := generate?_answers hg x
  cases r with
  | error e => cases h.symm.trans (generate?_eq_error_iff.mp hr)
  | ok out =>
    obtain ⟨w', b, hw, hb, rfl⟩ := generate?_eq_ok hr
    cases h.symm.trans hw
    exact ⟨b, hb, hr⟩

/-- A run on a program of any kind fails exactly if its settings are out of range or a marker is not
declared, and reports the first of these. Otherwise it succeeds, and the file for all contracts
together comes last. -/
theorem generate?_outcome (hg : g.Reachable) (x : Generator) :
    (∀ e, x.generate? g = some (.error (.settings e)) ↔ FirstHolds e (causes g x.settings)) ∧
      ((∀ c ∈ causes g x.settings, ¬ c.1) →
        ∃ w b out file, prepare x.settings g = .ok w ∧ x.bindings? g w = some b ∧
          x.generate? g = some (.ok out) ∧ out.files.getLast? = some file ∧
          file = Client.indexSource x.settings b.hubs b.receivers ∧
          file.path = x.settings.output.directory ++ "/" ++ "index.ts") := by
  have hfails := prepare_failsByFirst hg.consistent x.settings
  refine ⟨fun e => generate?_eq_error_iff.trans (hfails e), fun hnone => ?_⟩
  obtain ⟨w, hw⟩ := hfails.isOk_iff.mpr hnone
  obtain ⟨b, hb, hrun⟩ := generate?_of_prepare hg.consistent hw
  exact ⟨w, b, _, _, hw, hb, hrun, List.getLast?_concat, rfl, rfl⟩

/-- Two interfaces, before the first gets the second as its base. -/
def openChain : TypeGraph :=
  TypeGraph.declareAll
    [{ head := { kind := .interface, nameSpace := "App", name := "IFirst" }
       attributes := [⟨0⟩], methods := [{ name := "Ping", returns := ⟨3⟩ }] },
     { head := { kind := .interface, nameSpace := "App", name := "ISecond" }
       attributes := [⟨1⟩], bases := [⟨12⟩]
       methods := [{ name := "Pull", returns := ⟨10⟩ }] }] Agreement.streamTypes

/-- Two interfaces that are bases of each other. -/
def cyclicProgram : TypeGraph :=
  { openChain with
    types := openChain.types.modify 12 fun s => { s with bases := s.bases ++ [⟨13⟩] } }

theorem cyclicProgram_reachable : cyclicProgram.Reachable := by
  have hopen : openChain.Reachable := Agreement.streamTypes_reachable.declareAll (by decide +kernel)
  have hfirst : openChain.Issued ⟨12⟩ := by decide +kernel
  have hsecond : openChain.Issued ⟨13⟩ := by decide +kernel
  exact .step hopen (.addBase hfirst hsecond rfl)

theorem cyclicProgram_outcome :
    cyclicProgram.Reachable ∧ (∀ c ∈ causes cyclicProgram {}, ¬ c.1) ∧
      (∃ w b out, prepare {} cyclicProgram = .ok w ∧
        ({} : Generator).bindings? cyclicProgram w = some b ∧
        ({} : Generator).generate? cyclicProgram = some (.ok out) ∧
        out.files.getLast? = some (Client.indexSource {} b.hubs b.receivers)) ∧
      ∀ x : Generator, x.settings.output.indentWidth = 0 → x.settings.output.directory = " " →
        x.generate? cyclicProgram = some (.error (.settings (Settings.indentOutOfRange 0))) := by
  have hnone : ∀ c ∈ causes cyclicProgram {}, ¬ c.1 := by
    simp only [causes, List.forall_mem_cons]
    refine ⟨by decide, fun hblank => ?_, by decide +kernel, by decide +kernel, by decide +kernel,
      by simp⟩
    have hfirst : Text.isWhiteSpace 'h' = true := hblank 'h' (by decide +kernel)
    cases hfirst
  refine ⟨cyclicProgram_reachable, hnone, ?_, fun x hindent _ => ?_⟩
  · obtain ⟨w, b, out, file, hw, hb, hout, hlast, rfl, _⟩ :=
      (generate?_outcome cyclicProgram_reachable {}).2 hnone
    exact ⟨w, b, out, hw, hb, hout, hlast⟩
  · refine ((generate?_outcome cyclicProgram_reachable x).1 _).mpr (.inl ⟨?_, ?_⟩)
    · rw [hindent]
      decide
    · rw [hindent]

end HubBindings.Generator
