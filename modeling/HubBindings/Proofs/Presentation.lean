import HubBindings.Proofs.Outcome
import HubBindings.Proofs.Text.Layout

/-!
Options of presentation: the line ending, the width of the indentation, and whether members have
documentation.

* `IndexFile.steps_endLines` and `InterfaceFile.steps_endLines`: every text in a file ends its line,
  so that the files can be compared without their indentation;
* `presentation_only`: two runs that differ in these options alone fail alike, or they give the same
  diagnostics and the same files but for line endings, indentation and documentation.
-/

namespace HubBindings

open Text

/-! ## Layouts of files -/

namespace Client

attribute [local simp] Step.allEndLines

@[simp] theorem Accessor.steps_endLines (a : Accessor) : Step.allEndLines a.steps = true := by
  simp [Accessor.steps]

@[simp] theorem HubProxy.steps_endLines (h : HubProxy) : Step.allEndLines h.steps = true := by
  simp [HubProxy.steps]

@[simp] theorem ReceiverBinder.steps_endLines (b : ReceiverBinder) :
    Step.allEndLines b.steps = true := by
  simp [ReceiverBinder.steps, ReceiverBinder.registerSteps]

@[simp] theorem Provider.steps_endLines (p : Provider) : Step.allEndLines p.steps = true := by
  simp [Provider.steps]

@[simp] theorem templateSteps_endLines (line : String) :
    Step.allEndLines (templateSteps line) = true := by
  have hlevels : ∀ {s : Step} (n : Nat), s.endsLines = true →
      Step.allEndLines (List.replicate n s) = true := by
    intro s n hs
    have hmap := Step.allEndLines_map (f := fun _ => s) (fun _ => hs) (List.range n)
    rwa [List.map_const', List.length_range] at hmap
  unfold templateSteps
  by_cases hempty : (String.ofList (line.toList.dropWhile (· = ' '))).isEmpty
  · simp [hempty]
  · simp [hempty, hlevels]

theorem IndexFile.steps_endLines (f : IndexFile) : Step.allEndLines f.steps = true := by
  simp [IndexFile.steps, componentSteps]

@[simp] theorem Member.steps_endLines (emitDocs : Bool) (m : Member) :
    Step.allEndLines (m.steps emitDocs) = true := by
  cases emitDocs <;> simp [Member.steps]

@[simp] theorem ExportedType.steps_endLines (emitDocs : Bool) (t : ExportedType) :
    Step.allEndLines (t.steps emitDocs) = true := by
  simp [ExportedType.steps]

theorem InterfaceFile.steps_endLines (emitDocs : Bool) (f : InterfaceFile) :
    Step.allEndLines (f.steps emitDocs) = true := by
  simp [InterfaceFile.steps]

end Client

/-! ## Settings -/

/-- The settings with other options of presentation. -/
def Settings.present (s : Settings) (lineEnding : LineEnding) (indentWidth : Nat)
    (emitDocs : Bool) : Settings :=
  { s with output := { s.output with lineEnding, indentWidth, emitDocs } }

namespace Client

variable {s : Settings} {e : LineEnding} {n : Nat} {d : Bool}

private theorem renderSteps_breaksBy (s : Settings) (steps : List Step) :
    BreaksBy s.output.lineEnding (renderSteps s steps) := normalizeBreaks_breaksBy _ _

private theorem bareLines_renderSteps (s : Settings) (steps : List Step) :
    bareLines (renderSteps s steps).toList =
      bareLines (layout (spaces s.output.indentWidth) steps).toList := by
  rw [renderSteps, normalizeBreaks, String.toList_ofList, bareLines, lines_normalizeChars]
  rfl

private theorem bareLines_renderSteps_present {steps : List Step}
    (h : Step.allEndLines steps = true) :
    bareLines (renderSteps (s.present e n d) steps).toList =
      bareLines (renderSteps s steps).toList := by
  rw [bareLines_renderSteps, bareLines_renderSteps]
  exact bareLines_layout h _ _

/-- With another line ending alone, a file is the old one with its line breaks changed. -/
theorem renderSteps_present (h : n = s.output.indentWidth) (steps : List Step) :
    renderSteps (s.present e n d) steps = normalizeBreaks e (renderSteps s steps) := by
  rw [renderSteps, renderSteps, normalizeBreaks_normalizeBreaks, h]
  rfl

end Client

/-! ## Runs -/

namespace Generator

open Client

/-- Two generators that differ at most in the options of presentation. -/
def SameButPresentation (x x' : Generator) : Prop :=
  ∃ lineEnding indentWidth emitDocs,
    x' = { x with settings := x.settings.present lineEnding indentWidth emitDocs }

/-- Two files with the same lines but for the spaces in front of them. -/
def SameBareLines (f f' : SourceFile) : Prop :=
  bareLines f'.content.toList = bareLines f.content.toList

/-- The outputs of two runs whose settings differ at most in the options of presentation. -/
structure PresentedAlike (s s' : Settings) (out out' : Output) : Prop where
  diagnostics : out'.diagnostics = out.diagnostics
  paths : out'.files.map (·.path) = out.files.map (·.path)
  /-- The index file is the last one. -/
  index : ∃ f f', out.files.getLast? = some f ∧ out'.files.getLast? = some f' ∧
    f.path = pathOf s IndexFile.fileName ∧ SameBareLines f f'
  interfaces : s'.output.emitDocs = s.output.emitDocs →
    List.Forall₂ SameBareLines out.files out'.files
  normalized : s'.output.emitDocs = s.output.emitDocs →
    s'.output.indentWidth = s.output.indentWidth →
      List.Forall₂ (fun f f' => f'.content = normalizeBreaks s'.output.lineEnding f.content)
        out.files out'.files
  breaks : ∀ f ∈ out.files, BreaksBy s.output.lineEnding f.content
  breaks' : ∀ f ∈ out'.files, BreaksBy s'.output.lineEnding f.content

private theorem emit_breaksBy (s : Settings) (b : Bindings) :
    ∀ f ∈ (emit s b).files, BreaksBy s.output.lineEnding f.content := by
  intro f hf
  rcases List.mem_append.mp hf with hf | hf
  · obtain ⟨file, _, rfl⟩ := List.mem_map.mp hf
    exact renderSteps_breaksBy _ _
  · cases List.mem_singleton.mp hf
    exact renderSteps_breaksBy _ _

/-- What holds of each interface file and of the index file holds of all files of two runs. -/
theorem emit_forall₂ {R : SourceFile → SourceFile → Prop} (s : Settings) (b : Bindings)
    {e : LineEnding} {n : Nat} {d : Bool}
    (hinterface : ∀ f : InterfaceFile, R (f.toSource s) (f.toSource (s.present e n d)))
    (hindex : ∀ f : IndexFile, R (f.toSource s) (f.toSource (s.present e n d))) :
    List.Forall₂ R (emit s b).files (emit (s.present e n d) b).files := by
  refine List.rel_append ?_ (.cons (hindex _) .nil)
  exact List.forall₂_map_left_iff.mpr (List.forall₂_map_right_iff.mpr
    (List.forall₂_same.mpr fun f _ => hinterface f))

private theorem emit_presentedAlike (s : Settings) (b : Bindings) (e : LineEnding) (n : Nat)
    (d : Bool) :
    PresentedAlike s (s.present e n d) (emit s b) (emit (s.present e n d) b) where
  diagnostics := rfl
  paths := by
    have hpaths := emit_forall₂ (R := fun f f' => f'.path = f.path) s b
      (e := e) (n := n) (d := d) (fun _ => rfl) (fun _ => rfl)
    exact Sequencing.map_eq_map_of_forall₂ hpaths.flip
  index := by
    refine ⟨_, _, List.getLast?_concat, List.getLast?_concat, rfl, ?_⟩
    exact bareLines_renderSteps_present (IndexFile.steps_endLines _)
  interfaces hd := by
    cases hd
    exact emit_forall₂ s b
      (fun f => bareLines_renderSteps_present (f.steps_endLines _))
      (fun f => bareLines_renderSteps_present f.steps_endLines)
  normalized hd hn := by
    cases hd
    exact emit_forall₂ s b (fun f => renderSteps_present hn _) (fun f => renderSteps_present hn _)
  breaks := emit_breaksBy s b
  breaks' := emit_breaksBy _ b

variable {g : TypeGraph} {x x' : Generator}

/-- The options of presentation are only presentation: two runs that differ in them alone fail with
the same error, or they give the same up to line endings, indentation and documentation. -/
theorem presentation_only (hg : g.Reachable) (h : SameButPresentation x x')
    (hv : x.settings.validate = .ok ()) (hv' : x'.settings.validate = .ok ()) :
    (∃ e, x.generate? g = some (.error e) ∧ x'.generate? g = some (.error e)) ∨
      ∃ out out', x.generate? g = some (.ok out) ∧ x'.generate? g = some (.ok out') ∧
        PresentedAlike x.settings x'.settings out out' := by
  obtain ⟨e, n, d, rfl⟩ := h
  have hprepare : prepare (x.settings.present e n d) g = prepare x.settings g := by
    unfold prepare
    rw [hv, hv']
    rfl
  cases hw : prepare x.settings g with
  | error cause =>
    refine .inl ⟨_, generate?_eq_error_iff.mpr hw, generate?_eq_error_iff.mpr ?_⟩
    exact hprepare.trans hw
  | ok w =>
    obtain ⟨b, hb, hrun⟩ := generate?_of_prepare hg.consistent hw
    obtain ⟨b', hb', hrun'⟩ := generate?_of_prepare
      (x := { x with settings := x.settings.present e n d }) hg.consistent (hprepare.trans hw)
    -- nothing before the files looks at the presentation
    cases hb.symm.trans hb'
    exact .inr ⟨_, _, hrun, hrun', emit_presentedAlike x.settings b e n d⟩

/-- A hub whose names have line breaks of all forms. -/
def brokenNames : TypeGraph :=
  TypeGraph.declareAll
    [{ head := { kind := .classType, nameSpace := "TypedSignalR.Client", name := "HubAttribute" } },
     { head :=
        { kind := .classType, nameSpace := "TypedSignalR.Client", name := "ReceiverAttribute" } },
     { head :=
        { kind := .classType, nameSpace := "Tapper", name := "TranspilationSourceAttribute" } },
     { head := { kind := .classType, nameSpace := "System.Threading.Tasks", name := "Task" } },
     { head := { kind := .interface, nameSpace := "App", name := "IChat\r" }
       attributes := [⟨0⟩]
       methods :=
        [{ name := "Say\r\nNow", parameters := [⟨"\n  what", ⟨3⟩⟩], returns := ⟨3⟩ },
         { name := "Poll\n", returns := ⟨2⟩ }] }] {}

/-- Settings with other options of presentation than the defaults. -/
def compact : Settings := ({} : Settings).present .crlf 2 false

theorem brokenNames_presentedAlike :
    brokenNames.Reachable ∧ SameButPresentation {} { settings := compact } ∧
      ∃ out out', ({} : Generator).generate? brokenNames = some (.ok out) ∧
        ({ settings := compact } : Generator).generate? brokenNames = some (.ok out') ∧
        out.files.map (·.path) = ["hubs/App.ts", "hubs/index.ts"] ∧
        out.diagnostics.map (·.method) = [some "Poll\n"] ∧
        PresentedAlike {} compact out out' := by
  have hreachable : brokenNames.Reachable := .declareAll .empty (by decide +kernel)
  have hx : SameButPresentation {} { settings := compact } := ⟨_, _, _, rfl⟩
  obtain ⟨e, hfail, _⟩ | ⟨out, out', hrun, hrun', hsame⟩ :=
    presentation_only hreachable hx (by decide +kernel) (by decide +kernel)
  · cases hfail
  · refine ⟨hreachable, hx, out, out', hrun, hrun', ?_, ?_, hsame⟩
    · cases hrun
      decide +kernel
    · cases hrun
      decide +kernel

end Generator

end HubBindings
