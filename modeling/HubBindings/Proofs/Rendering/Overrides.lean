import HubBindings.Generator
import HubBindings.Proofs.Rendering.Tree

/-!
Fixed texts of types against the built-in rules.

The reading of a tree (`TypeTree.read`) puts the fixed text of a type in its place wherever the type
occurs. A run does the same at every type that its rules are asked about (`renderAt?_of_tree`). The
rule for tasks does not ask about a stream in the task that a hub returns, so a fixed text of that
stream is lost there (`renderAt?_of_bypassed`), and only there (`overrides_win_iff`).
-/

namespace HubBindings

open TypeGraph WellKnown RenderM Reading

variable {g : TypeGraph} {w : WellKnown} {ty : TypeId} {texts : List (String × String)}
  {p : Position}

/-- Without rules of its own, a run has the fixed texts and the built-in rules. -/
theorem Generator.allRules_of_settings (settings : Settings) :
    ({ settings } : Generator).allRules = Rule.withTexts settings.types.overrides := by
  simp [Generator.allRules, Rule.withTexts]

/-- The position is the result of a hub, and the type is a task without a fixed text that carries a
stream with one. -/
def Bypasses (g : TypeGraph) (w : WellKnown) (texts : List (String × String)) (p : Position)
    (ty : TypeId) : Prop :=
  p = .hubReturn ∧ ∃ stream element n n', TaskOf g w ty stream ∧ StreamOf g w stream element ∧
    g.metadataName? ty = some n ∧ texts.lookup n = none ∧
    g.metadataName? stream = some n' ∧ texts.lookup n' ≠ none

private theorem renderAt?_of_follows {rules : List Rule} {r : Reading String}
    (h : Follows (renderType g w rules ty) p r) : renderAt? g w rules p ty = some r.rendered := by
  rw [renderAt?, h {}]
  rfl

theorem TypeTree.Bypassed.carriers {t : TypeTree} (h : t.Bypassed texts) :
    ∃ label kind label' kind' element, t = .carrier label kind (.carrier label' kind' element) := by
  cases t with
  | carrier label kind inner =>
    cases inner with
    | carrier label' kind' element => exact ⟨_, _, _, _, _, rfl⟩
    | _ => exact h.elim
  | _ => exact h.elim

/-- The reading makes a promise of the fixed text. -/
theorem TypeTree.read_of_bypassed {label label' : Label} {kind kind' : Carrier}
    {element : TypeTree}
    (h : (TypeTree.carrier label kind (.carrier label' kind' element)).Bypassed texts) :
    ∃ text, texts.lookup label'.name = some text ∧
      (TypeTree.carrier label kind (.carrier label' kind' element)).read texts .hubReturn =
        promise (pure text) := by
  obtain ⟨htask, _, hl, hl'⟩ := h
  obtain ⟨text, htext⟩ := Option.ne_none_iff_exists'.mp hl'
  refine ⟨text, htext, ?_⟩
  have hinner : (TypeTree.carrier label' kind' element).read texts .nested = pure text :=
    read_of_text htext
  rw [read, Label.orElse_of_no_text hl, if_pos htask, if_pos rfl, hinner, carried?, htext]
  simp

/-- A stream that the caller consumes is no promise: it notes its wrapper. -/
theorem Reading.rendered_wrapped_ne_promise (element : Reading String) (text : String) :
    (wrapped .streamResult element).rendered ≠ (promise (pure text)).rendered := by
  obtain ⟨result, notes⟩ := element
  cases result with
  | error e => exact fun h => nomatch h
  | ok inner =>
    intro h
    have hreferences : ({} : References).noteAll (.wrapper .streamResult :: (notes ++ [])) = {} :=
      congrArg Rendered.references (Except.ok.inj h)
    have hnoted : Wrapper.streamResult ∈
        (({} : References).noteAll (.wrapper .streamResult :: (notes ++ []))).wrappers :=
      References.mem_wrappers_noteAll.mpr (.inr List.mem_cons_self)
    rw [hreferences] at hnoted
    cases hnoted

section Bypassed

variable (hg : Consistent g)
  (hw : ∀ {ty}, w.isTask ty = true → ∃ head, g.form? ty = some (.declared head))
include hg hw

/-- The tree of a type constructed from a task or a stream. -/
theorem treeWithin_of_carrier {room : Nat} {t : TypeTree} {d a : TypeId} {as : List TypeId}
    {kind : Carrier} (hf : g.form? ty = some (.constructed d (a :: as)))
    (hkind : Carrier.of? w d = some kind) (ht : treeWithin g w room ty = some t) :
    ∃ below label inner, room = below + 1 ∧ g.metadataName? ty = some label.name ∧
      treeWithin g w below a = some inner ∧ t = .carrier label kind inner := by
  obtain ⟨below, n, display, s, rfl, hn, _, hfits, htree⟩ := treeWithin_cases hg ht
  rcases hfits.of_carrier hf hkind with ⟨htask, _⟩ | rfl
  · obtain ⟨head, hhead⟩ := hw htask
    cases hf.symm.trans hhead
  · obtain ⟨inner, hinner, rfl⟩ := Option.map_eq_some_iff.mp htree
    exact ⟨below, _, inner, rfl, hn, hinner, rfl⟩

/-- What is said of the graph can be seen from the tree. -/
theorem bypassed_iff {t : TypeTree} (ht : tree? g w ty = some t) :
    Bypasses g w texts .hubReturn ty ↔ t.Bypassed texts := by
  constructor
  · rintro ⟨_, stream, element, n, n', ⟨d, as, hd, hf⟩, ⟨d', as', hd', hf'⟩, hn, hl, hn', hl'⟩
    obtain ⟨kind, hkind, htask⟩ := Carrier.isTask_iff.mpr hd
    obtain ⟨kind', hkind', hstream⟩ := Carrier.isStream_iff.mpr hd'
    obtain ⟨below, label, inner, _, hname, hinner, rfl⟩ := treeWithin_of_carrier hg hw hf hkind ht
    obtain ⟨_, label', _, _, hname', _, rfl⟩ := treeWithin_of_carrier hg hw hf' hkind' hinner
    cases hn.symm.trans hname
    cases hn'.symm.trans hname'
    exact ⟨htask, hstream, hl, hl'⟩
  · intro h
    obtain ⟨label, kind, label', kind', element, rfl⟩ := h.carriers
    obtain ⟨htask, hstream, hl, hl'⟩ := h
    obtain ⟨_, n, _, s, _, hn, _, hfits, htree⟩ := treeWithin_cases hg ht
    obtain ⟨stream, rfl, rfl, hinner⟩ := Shape.tree?_eq_carrier htree
    obtain ⟨_, d, as, hf, hkind⟩ := hfits.carrier_form
    obtain ⟨_, n', _, s', _, hn', _, hfits', htree'⟩ := treeWithin_cases hg hinner
    obtain ⟨a, rfl, rfl, _⟩ := Shape.tree?_eq_carrier htree'
    obtain ⟨_, d', as', hf', hkind'⟩ := hfits'.carrier_form
    exact ⟨rfl, stream, a, n, n', ⟨d, as, Carrier.isTask_iff.mp ⟨kind, hkind, htask⟩, hf⟩,
      ⟨d', as', Carrier.isStream_iff.mp ⟨kind', hkind', hstream⟩, hf'⟩, hn, hl, hn', hl'⟩

theorem renderAt?_of_tree {t : TypeTree} (ht : tree? g w ty = some t)
    (hp : ¬ Bypasses g w texts p ty) :
    renderAt? g w (Rule.withTexts texts) p ty = some (t.read texts p).rendered := by
  refine renderAt?_of_follows (renderWithin_follows hg hw ht ?_)
  rintro rfl hbypassed
  exact hp ((bypassed_iff hg hw ht).mpr hbypassed)

/-- Where the fixed text of a stream is lost, what the stream carries is rendered in its place. -/
theorem renderAt?_of_bypassed {label label' : Label} {kind kind' : Carrier} {element : TypeTree}
    (ht : tree? g w ty = some (.carrier label kind (.carrier label' kind' element)))
    (h : (TypeTree.carrier label kind (.carrier label' kind' element)).Bypassed texts) :
    renderAt? g w (Rule.withTexts texts) .hubReturn ty =
      some (wrapped .streamResult (element.read texts .nested)).rendered := by
  obtain ⟨htask, hstream, hl, _⟩ := h
  refine renderAt?_of_follows ?_
  obtain ⟨below, n, _, s, hroom, hn, _, hfits, htree⟩ := treeWithin_cases hg ht
  obtain ⟨stream, rfl, rfl, hinner⟩ := Shape.tree?_eq_carrier htree
  obtain ⟨_, d, as, hf, _⟩ := hfits.carrier_form
  have hfind := (Rule.find?_of_no_text hn hl).trans hfits.find?
  rw [renderType, hroom]
  refine .lift_bind hfind ?_
  rw [Shape.rule?, if_pos htask]
  refine Follows.taskOfStream hg hw (firstArgument?_of_constructed hf) ?_ hinner hstream
  exact fun _ _ hta => renderWithin_follows hg hw hta (fun e => by cases e)

end Bypassed

/-- A run without rules of its own renders a type as its tree reads, with every fixed text in the
place of its type, exactly if it is not asked for the result of a hub that is a task of a stream
with a fixed text. There it renders what the stream carries. -/
theorem overrides_win_iff (hg : g.Reachable) {names : WellKnownNames}
    (hw : WellKnown.resolve g names = .ok w) (hty : g.Issued ty) (settings : Settings)
    (p : Position) :
    ∃ t, tree? g w ty = some t ∧
      (renderAt? g w ({ settings } : Generator).allRules p ty =
          some (t.read settings.types.overrides p).rendered ↔
        ¬ Bypasses g w settings.types.overrides p ty) ∧
      (Bypasses g w settings.types.overrides p ty →
        ∃ label kind label' kind' element, t = .carrier label kind (.carrier label' kind' element) ∧
          renderAt? g w ({ settings } : Generator).allRules p ty =
            some (wrapped .streamResult
              (element.read settings.types.overrides .nested)).rendered) := by
  have hconsistent := hg.consistent
  have htasks : ∀ {ty}, w.isTask ty = true → ∃ head, g.form? ty = some (.declared head) :=
    fun h => WellKnown.resolve_isTask hg.coherent hw h
  obtain ⟨t, ht⟩ := exists_tree? (w := w) hconsistent hty
  rw [Generator.allRules_of_settings]
  have hlost : Bypasses g w settings.types.overrides p ty →
      ∃ label kind label' kind' element, t = .carrier label kind (.carrier label' kind' element) ∧
        t.Bypassed settings.types.overrides ∧
        renderAt? g w (Rule.withTexts settings.types.overrides) p ty =
          some (wrapped .streamResult
            (element.read settings.types.overrides .nested)).rendered := by
    intro hby
    obtain rfl : p = .hubReturn := hby.1
    have hbypassed := (bypassed_iff hconsistent htasks ht).mp hby
    obtain ⟨label, kind, label', kind', element, rfl⟩ := hbypassed.carriers
    exact ⟨label, kind, label', kind', element, rfl, hbypassed,
      renderAt?_of_bypassed hconsistent htasks ht hbypassed⟩
  refine ⟨t, ht, ⟨fun hsame hby => ?_, renderAt?_of_tree hconsistent htasks ht⟩, fun hby => ?_⟩
  · obtain ⟨label, kind, label', kind', element, rfl, hbypassed, hrender⟩ := hlost hby
    obtain ⟨text, _, hread⟩ := TypeTree.read_of_bypassed hbypassed
    obtain rfl : p = .hubReturn := hby.1
    rw [hrender, hread, Option.some.injEq] at hsame
    exact rendered_wrapped_ne_promise _ _ hsame
  · obtain ⟨label, kind, label', kind', element, heq, _, hrender⟩ := hlost hby
    exact ⟨label, kind, label', kind', element, heq, hrender⟩

/-- The markers, a primitive type, tasks and streams. -/
def feedRuntime : TypeGraph :=
  TypeGraph.declareAll
    [{ head := { kind := .classType, nameSpace := "TypedSignalR.Client", name := "HubAttribute" } },
     { head :=
        { kind := .classType, nameSpace := "TypedSignalR.Client", name := "ReceiverAttribute" } },
     { head :=
        { kind := .classType, nameSpace := "Tapper", name := "TranspilationSourceAttribute" } },
     { head := { kind := .structType, nameSpace := "System", name := "Int32" } },
     { head :=
        { kind := .classType, nameSpace := "System.Threading.Tasks", name := "Task", arity := 1 } },
     { head :=
        { kind := .interface, nameSpace := "System.Collections.Generic"
          name := "IAsyncEnumerable", arity := 1 } }] {}

/-- A stream of numbers and a task of it. -/
def feedStreams : TypeGraph :=
  (feedRuntime.withConstruction ⟨5⟩ [⟨3⟩]).withConstruction ⟨4⟩ [⟨6⟩]

/-- The same with an array of the stream and a task of the array. -/
def feedTypes : TypeGraph := (feedStreams.withArray ⟨6⟩).withConstruction ⟨4⟩ [⟨8⟩]

/-- Settings with a fixed text for streams. -/
def feedSettings : Settings :=
  { types := { overrides := [("System.Collections.Generic.IAsyncEnumerable`1", "Feed")] } }

private theorem feedTypes_reachable : feedTypes.Reachable := by
  have h₀ : feedRuntime.Reachable := .declareAll .empty (by decide +kernel)
  have h₁ := h₀.withConstruction ⟨5⟩ [⟨3⟩] (by decide +kernel) (by decide +kernel) rfl
  have h₂ : feedStreams.Reachable :=
    h₁.withConstruction ⟨4⟩ [⟨6⟩] (by decide +kernel) (by decide +kernel) rfl
  have he : feedStreams.Issued ⟨6⟩ := by decide +kernel
  have h₃ : (feedStreams.withArray ⟨6⟩).Reachable := .step h₂ (.arrayOf he rfl)
  exact h₃.withConstruction ⟨4⟩ [⟨8⟩] (by decide +kernel) (by decide +kernel) rfl

theorem feedTypes_overrides_win :
    feedTypes.Reachable ∧ feedTypes.Issued ⟨9⟩ ∧
      ∃ w t, WellKnown.resolve feedTypes {} = .ok w ∧ tree? feedTypes w ⟨9⟩ = some t ∧
        renderAt? feedTypes w ({ settings := feedSettings } : Generator).allRules .hubReturn ⟨9⟩ =
          some (t.read feedSettings.types.overrides .hubReturn).rendered ∧
        (t.read feedSettings.types.overrides .hubReturn).rendered =
          .ok { text := "Promise<Feed[]>", references := {} } := by
  have hissued : feedTypes.Issued ⟨9⟩ := by decide +kernel
  obtain ⟨w, hw⟩ : ∃ w, WellKnown.resolve feedTypes {} = .ok w := ⟨_, rfl⟩
  obtain ⟨t, ht, hiff, _⟩ :=
    overrides_win_iff feedTypes_reachable hw hissued feedSettings .hubReturn
  have hnot : ¬ Bypasses feedTypes w feedSettings.types.overrides .hubReturn ⟨9⟩ := by
    rintro ⟨_, stream, element, _, _, ⟨d, as, _, hf⟩, ⟨d', as', _, hf'⟩, _⟩
    have hform : feedTypes.form? ⟨9⟩ = some (.constructed ⟨4⟩ [⟨8⟩]) := by decide +kernel
    have hform' : feedTypes.form? ⟨8⟩ = some (.array ⟨6⟩) := by decide +kernel
    cases hform.symm.trans hf
    cases hform'.symm.trans hf'
  refine ⟨feedTypes_reachable, hissued, w, t, hw, ht, hiff.mpr hnot, ?_⟩
  cases hw
  cases ht
  rfl

/-- The result of a hub that is a task of a stream does not get the fixed text of streams. -/
theorem feedTypes_override_bypassed :
    feedTypes.Reachable ∧ feedTypes.Issued ⟨7⟩ ∧
      ∃ w t, WellKnown.resolve feedTypes {} = .ok w ∧ tree? feedTypes w ⟨7⟩ = some t ∧
        renderAt? feedTypes w ({ settings := feedSettings } : Generator).allRules .hubReturn ⟨7⟩ =
          some (.ok { text := "IStreamResult<number>"
                      references := { wrappers := [.streamResult] } }) ∧
        (t.read feedSettings.types.overrides .hubReturn).rendered =
          .ok { text := "Promise<Feed>", references := {} } :=
  ⟨feedTypes_reachable, by decide +kernel, _, _, rfl, rfl, by decide +kernel, rfl⟩

end HubBindings
