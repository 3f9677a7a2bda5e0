import HubBindings.Proofs.Rendering.Shape
import HubBindings.Proofs.Rendering.Trace

/-!
Types as trees, and how trees read.

* `tree?` makes the tree of a type: the type, and below it the types that its rendering goes on to.
  Every type has a tree (`exists_tree?`);
* `TypeTree.read` is the text of a tree with what it notes, by recursion on the tree. At every node
  it looks first for a fixed text under the metadata name;
* `renderWithin_follows`: rendering by fixed texts and the built-in rules follows the reading of the
  tree. The one exception is where a hub returns a task of a stream with a fixed text
  (`TypeTree.Bypassed`): the rule for tasks goes on to what the stream carries
  (`Follows.taskOfStream`).
-/

namespace HubBindings

open Sequencing TypeGraph RenderM

variable {g : TypeGraph} {w : WellKnown} {ty : TypeId}

/-! ## Trees -/

/-- A type and what it is called. -/
structure Label where
  type : TypeId
  /-- The metadata name. -/
  name : String
  /-- The text in the host language. -/
  display : String
  deriving DecidableEq, Repr

/-- A type with the types that its rendering goes on to, by shapes. -/
inductive TypeTree where
  | task (label : Label)
  | carrier (label : Label) (kind : Carrier) (inner : TypeTree)
  | primitive (label : Label) (text : String)
  | list (label : Label) (element : TypeTree)
  | dictionary (label : Label) (key value : TypeTree)
  | optional (label : Label) (inner : TypeTree)
  | data (label : Label) (definition : TypeId) (name : String) (arguments : List TypeTree)
  | unclaimed (label : Label)

/-- Puts the trees of the parts below a type; `sub` gives the trees of the parts. -/
def Shape.tree? (sub : TypeId → Option TypeTree) (label : Label) : Shape → Option TypeTree
  | .task => some (.task label)
  | .carrier kind inner => (sub inner).map (.carrier label kind)
  | .primitive text => some (.primitive label text)
  | .list element => (sub element).map (.list label)
  | .dictionary key value => (sub key).bind fun k => (sub value).map (.dictionary label k)
  | .optional inner => (sub inner).map (.optional label)
  | .data definition name arguments => (arguments.mapM sub).map (.data label definition name)
  | .unclaimed => some (.unclaimed label)

/-- The tree of a type, at most `room` levels deep. -/
def treeWithin (g : TypeGraph) (w : WellKnown) : (room : Nat) → TypeId → Option TypeTree
  | 0, _ => none
  | room + 1, ty => do
    let label : Label := { type := ty, name := ← g.metadataName? ty, display := ← g.display? ty }
    (← Shape.of? g w ty).tree? (treeWithin g w room) label

/-- The tree of a type. -/
def tree? (g : TypeGraph) (w : WellKnown) (ty : TypeId) : Option TypeTree :=
  treeWithin g w g.typeCount ty

theorem Shape.exists_tree? {sub : TypeId → Option TypeTree} {s : Shape} (label : Label)
    (h : ∀ a ∈ s.parts, ∃ t, sub a = some t) : ∃ t, s.tree? sub label = some t := by
  cases s with
  | task => exact ⟨_, rfl⟩
  | carrier kind inner =>
    obtain ⟨t, ht⟩ := h inner List.mem_cons_self
    exact ⟨_, by rw [tree?, ht, Option.map_some]⟩
  | primitive text => exact ⟨_, rfl⟩
  | list element =>
    obtain ⟨t, ht⟩ := h element List.mem_cons_self
    exact ⟨_, by rw [tree?, ht, Option.map_some]⟩
  | dictionary key value =>
    obtain ⟨k, hk⟩ := h key List.mem_cons_self
    obtain ⟨v, hv⟩ := h value (List.mem_cons_of_mem _ List.mem_cons_self)
    exact ⟨_, by rw [tree?, hk, hv, Option.bind_some, Option.map_some]⟩
  | optional inner =>
    obtain ⟨t, ht⟩ := h inner List.mem_cons_self
    exact ⟨_, by rw [tree?, ht, Option.map_some]⟩
  | data definition name arguments =>
    obtain ⟨ts, hts, _⟩ : Answers (arguments.mapM sub) :=
      (Yields.mapM (Q := fun _ => True) fun a ha => by
        obtain ⟨t, ht⟩ := h a ha
        exact ⟨t, ht, trivial⟩).answers
    exact ⟨_, by rw [tree?, hts, Option.map_some]⟩
  | unclaimed => exact ⟨_, rfl⟩

/-- Trees of parts that stay make a tree that stays. -/
theorem Shape.tree?_mono {sub sub' : TypeId → Option TypeTree} {s : Shape} {label : Label}
    {t : TypeTree} (hsub : ∀ a t, sub a = some t → sub' a = some t)
    (h : s.tree? sub label = some t) : s.tree? sub' label = some t := by
  cases s with
  | task => exact h
  | carrier kind inner =>
    obtain ⟨a, ha, rfl⟩ := Option.map_eq_some_iff.mp h
    rw [tree?, hsub _ _ ha, Option.map_some]
  | primitive text => exact h
  | list element =>
    obtain ⟨a, ha, rfl⟩ := Option.map_eq_some_iff.mp h
    rw [tree?, hsub _ _ ha, Option.map_some]
  | dictionary key value =>
    obtain ⟨k, hk, h⟩ := Option.bind_eq_some_iff.mp h
    obtain ⟨v, hv, rfl⟩ := Option.map_eq_some_iff.mp h
    rw [tree?, hsub _ _ hk, Option.bind_some, hsub _ _ hv, Option.map_some]
  | optional inner =>
    obtain ⟨a, ha, rfl⟩ := Option.map_eq_some_iff.mp h
    rw [tree?, hsub _ _ ha, Option.map_some]
  | data definition name arguments =>
    obtain ⟨ts, hts, rfl⟩ := Option.map_eq_some_iff.mp h
    have hall : arguments.mapM sub' = some ts :=
      mapM_eq_some_iff.mpr ((mapM_eq_some_iff.mp hts).imp fun a t => hsub a t)
    rw [tree?, hall, Option.map_some]
  | unclaimed => exact h

theorem treeWithin_mono {room room' : Nat} (hroom : room ≤ room') {t : TypeTree}
    (h : treeWithin g w room ty = some t) : treeWithin g w room' ty = some t := by
  induction room generalizing room' ty t with
  | zero => cases h
  | succ room ih =>
    obtain ⟨more, rfl⟩ : ∃ more, room' = more + 1 := ⟨room' - 1, by omega⟩
    obtain ⟨n, hn, h⟩ := Option.bind_eq_some_iff.mp h
    obtain ⟨d, hd, h⟩ := Option.bind_eq_some_iff.mp h
    obtain ⟨s, hs, h⟩ := Option.bind_eq_some_iff.mp h
    have hsub : ∀ a t, treeWithin g w room a = some t → treeWithin g w more a = some t :=
      fun _ _ => ih (by omega)
    simp [treeWithin, hn, hd, hs, Shape.tree?_mono hsub h]

theorem issued_of_display? {d : String} (h : g.display? ty = some d) : g.Issued ty := by
  rw [display?] at h
  cases hcount : g.typeCount with
  | zero => rw [hcount] at h; cases h
  | succ room =>
    rw [hcount] at h
    obtain ⟨s, hs, _⟩ := Option.bind_eq_some_iff.mp h
    exact issued_iff_symbol?.mpr ⟨s, hs⟩

section Consistent

variable (hg : Consistent g)
include hg

/-- The parts of a type have smaller addresses. -/
theorem Shape.Fits.descends {s : Shape} (h : s.Fits g w ty) :
    ∀ a ∈ s.parts, a.index < ty.index := by
  have harguments : ∀ {as}, g.arguments? ty = some as → ∀ a ∈ as, a.index < ty.index := by
    intro as has a ha
    have hform := has
    rw [arguments?_eq_form?] at hform
    obtain ⟨f, hf, _⟩ := Option.map_eq_some_iff.mp hform
    obtain ⟨as', has', hlt⟩ := arguments?_yields hg (issued_iff_form?.mpr ⟨f, hf⟩)
    cases has.symm.trans has'
    exact hlt a ha
  have hconstructed : ∀ {d as}, g.form? ty = some (.constructed d as) →
      ∀ a ∈ as, a.index < ty.index := by
    intro d as hf
    exact harguments (arguments?_of_form? hf)
  cases h with
  | task _ => simp [parts]
  | carrier _ hf _ => simpa [parts] using hconstructed hf _ List.mem_cons_self
  | primitive _ _ _ _ _ => simp [parts]
  | array _ hf _ _ => simpa [parts] using hg.descends hf _ List.mem_cons_self
  | collection _ hf _ _ _ _ hs =>
    have hlt := hconstructed hf
    obtain ⟨_, rfl, rfl⟩ | ⟨_, _, rfl, rfl⟩ | ⟨_, rfl, rfl⟩ := ofKind?_eq_some hs
    · exact hlt
    · exact hlt
    · exact hlt
  | data _ _ _ _ has => exact harguments has
  | unclaimed _ _ => simp [parts]

private theorem exists_treeWithin {room : Nat} (hty : g.Issued ty) (hroom : ty.index < room) :
    ∃ t, treeWithin g w room ty = some t := by
  induction room generalizing ty with
  | zero => exact absurd hroom (Nat.not_lt_zero _)
  | succ room ih =>
    obtain ⟨n, hn, _⟩ := metadataName?_answers hg hty
    obtain ⟨d, hd, _⟩ := display?_answers hg hty
    obtain ⟨s, hs, hfits⟩ := Shape.exists_fits (w := w) hg hty
    have hparts : ∀ a ∈ s.parts, ∃ t, treeWithin g w room a = some t := fun a ha => by
      have hlt := hfits.descends hg a ha
      exact ih (hty.of_lt hlt) (by omega)
    obtain ⟨t, ht⟩ := Shape.exists_tree? ⟨ty, n, d⟩ hparts
    exact ⟨t, by simp [treeWithin, hn, hd, hs, ht]⟩

/-- Every type has a tree. -/
theorem exists_tree? (hty : g.Issued ty) : ∃ t, tree? g w ty = some t :=
  exists_treeWithin hg hty hty

/-- A tree is made from a shape that fits, with the names of the type at its root. -/
theorem treeWithin_cases {room : Nat} {t : TypeTree} (h : treeWithin g w room ty = some t) :
    ∃ (below : Nat) (n d : String) (s : Shape), room = below + 1 ∧
      g.metadataName? ty = some n ∧ g.display? ty = some d ∧ s.Fits g w ty ∧
      s.tree? (treeWithin g w below) ⟨ty, n, d⟩ = some t := by
  cases room with
  | zero => cases h
  | succ below =>
    obtain ⟨n, hn, h⟩ := Option.bind_eq_some_iff.mp h
    obtain ⟨d, hd, h⟩ := Option.bind_eq_some_iff.mp h
    obtain ⟨s, hs, h⟩ := Option.bind_eq_some_iff.mp h
    obtain ⟨s', hs', hfits⟩ := Shape.exists_fits (w := w) hg (issued_of_display? hd)
    cases hs.symm.trans hs'
    exact ⟨below, n, d, s, rfl, hn, hd, hfits, h⟩

end Consistent

/-! ## Readings -/

/-- How a rendering ends, and what it notes. -/
structure Reading (α : Type) where
  result : Except RenderError α
  notes : List Note := []

namespace Reading

/-- What comes after a failure is not looked at, and what was noted stays noted. -/
def andThen {α β : Type} (x : Reading α) (k : α → Reading β) : Reading β :=
  match x.result with
  | .error e => { result := .error e, notes := x.notes }
  | .ok a => { result := (k a).result, notes := x.notes ++ (k a).notes }

instance : Monad Reading where
  pure a := { result := .ok a }
  bind := andThen

def note (n : Note) : Reading Unit := { result := .ok (), notes := [n] }

def refuse (label : Label) : Reading String := { result := .error (.unsupported label.display) }

def promise (inner : Reading String) : Reading String := do
  return inAngles "Promise" (← inner)

def wrapped (wrapper : Wrapper) (element : Reading String) : Reading String := do
  note (.wrapper wrapper)
  return inAngles wrapper.identifier (← element)

/-- The rendering that a reading describes, if nothing was noted before. -/
def rendered (x : Reading String) : Except RenderError Rendered :=
  x.result.map fun text => { text, references := ({} : References).noteAll x.notes }

end Reading

open Reading

/-- The fixed text of a type, or else another reading. -/
def Label.orElse (texts : List (String × String)) (label : Label) (other : Reading String) :
    Reading String :=
  ((texts.lookup label.name).map pure).getD other

namespace TypeTree

mutual

/-- The text of a tree at a position. Fixed texts come first, at every node. -/
def read (texts : List (String × String)) (p : Position) : TypeTree → Reading String
  | .task label => label.orElse texts (pure "Promise<void>")
  | .carrier label kind inner => label.orElse texts
      (if kind.isTask then
        if p = .hubReturn then
          ((carried? texts inner).map (wrapped .streamResult)).getD
            (promise (read texts .nested inner))
        else promise (read texts .nested inner)
      else wrapped (if p = .hubReturn then .streamResult else .subject) (read texts .nested inner))
  | .primitive label text => label.orElse texts (pure text)
  | .list label element => label.orElse texts (do return (← read texts .nested element) ++ "[]")
  | .dictionary label key value => label.orElse texts (do
      let k ← read texts .nested key
      let v ← read texts .nested value
      return "\x7b [key: " ++ k ++ "]: " ++ v ++ " \x7d")
  | .optional label inner => label.orElse texts (do
      return "(" ++ (← read texts .nested inner) ++ " | undefined)")
  | .data label definition name arguments => label.orElse texts (do
      note (.dataType definition)
      let args ← readAll texts arguments
      return if arguments.isEmpty then name else inAngles name (", ".intercalate args))
  | .unclaimed label => label.orElse texts (refuse label)

/-- What a stream carries, unless the stream has a fixed text. -/
def carried? (texts : List (String × String)) : TypeTree → Option (Reading String)
  | .carrier label kind element =>
    if kind.isStream && (texts.lookup label.name).isNone then some (read texts .nested element)
    else none
  | _ => none

/-- The texts of arguments, until one fails. -/
def readAll (texts : List (String × String)) : List TypeTree → Reading (List String)
  | [] => pure []
  | t :: ts => do
    let text ← read texts .nested t
    return text :: (← readAll texts ts)

end

end TypeTree

/-! ## Renderings that follow a reading -/

namespace RenderM

variable {α β : Type} {p : Position}

/-- At position `p` the rendering ends as the reading says and notes what the reading says. -/
def Follows (x : RenderM α) (p : Position) (r : Reading α) : Prop := Traces x p r.result r.notes

theorem Follows.pure (a : α) : Follows (pure a) p (pure a) := fun _ => rfl

theorem Follows.bind {x : RenderM α} {k : α → RenderM β} {r : Reading α} {l : α → Reading β}
    (hx : Follows x p r) (hk : ∀ a, Follows (k a) p (l a)) : Follows (x >>= k) p (r >>= l) := by
  intro refs
  rw [run_bind, hx refs]
  obtain ⟨result, notes⟩ := r
  cases result with
  | error e => rfl
  | ok a =>
    change (k a).run _ = some ((l a).result, ⟨p, refs.noteAll (notes ++ (l a).notes)⟩)
    rw [References.noteAll_append]
    exact hk a _

theorem Follows.lift_bind {o : Option α} {a : α} {k : α → RenderM β} {r : Reading β}
    (ho : o = some a) (h : Follows (k a) p r) : Follows (liftM o >>= k) p r := by
  intro refs
  rw [run_lift_bind, ho]
  exact h refs

theorem Follows.get_bind {k : Context → RenderM β} {r : Reading β}
    (h : ∀ refs, Follows (k ⟨p, refs⟩) p r) : Follows (get >>= k) p r := by
  intro refs
  rw [run_get_bind]
  exact h refs refs

theorem Follows.nested {x : RenderM α} {r : Reading α} (h : Follows x .nested r) :
    Follows (nested x) p r := by
  intro refs
  rw [run_nested, h refs]
  rfl

theorem Follows.noteWrapper (x : Wrapper) : Follows (noteWrapper x) p (note (.wrapper x)) :=
  fun _ => rfl

theorem Follows.noteDataType {d : TypeId} (hd : g.definition? ty = some d) :
    Follows (noteDataType g ty) p (note (.dataType d)) :=
  .lift_bind hd fun _ => rfl

theorem Follows.typeArgument_bind {a : TypeId} {k : TypeId → RenderM β} {r : Reading β}
    (ha : g.firstArgument? ty = some (some a)) (h : Follows (k a) p r) :
    Follows (typeArgument g ty >>= k) p r := by
  rw [typeArgument, bind_assoc]
  exact .lift_bind ha h

theorem Follows.refuse {label : Label} (h : g.display? ty = some label.display) :
    Follows (refuse g ty) p (Reading.refuse label) :=
  .lift_bind h fun _ => rfl

theorem Follows.promise {x : RenderM String} {r : Reading String} (h : Follows x .nested r) :
    Follows (do return inAngles "Promise" (← RenderM.nested x)) p r.promise :=
  .bind (.nested h) fun _ => .pure _

theorem Follows.wrapped {x : RenderM String} {r : Reading String} (wrapper : Wrapper)
    (h : Follows x .nested r) :
    Follows (do
      RenderM.noteWrapper wrapper
      return inAngles wrapper.identifier (← RenderM.nested x)) p (r.wrapped wrapper) :=
  .bind (.noteWrapper wrapper) fun _ => .bind (.nested h) fun _ => .pure _

end RenderM

/-! ## Fixed texts before the built-in rules -/

/-- The built-in rules, after the fixed texts if there are any. -/
def Rule.withTexts (texts : List (String × String)) : List Rule :=
  (if texts.isEmpty then [] else [.override texts]) ++ Rule.builtin

section Texts

variable {texts : List (String × String)} {n : String}

theorem Rule.find?_of_text {text : String} (hn : g.metadataName? ty = some n)
    (h : texts.lookup n = some text) :
    Rule.find? g w (Rule.withTexts texts) ty = some (some (.override texts)) := by
  cases texts with
  | nil => cases h
  | cons first rest => exact findM?_cons_true (by simp [Rule.claims?, hn, h]) _

theorem Rule.find?_of_no_text (hn : g.metadataName? ty = some n) (h : texts.lookup n = none) :
    Rule.find? g w (Rule.withTexts texts) ty = Rule.find? g w Rule.builtin ty := by
  cases texts with
  | nil => rfl
  | cons first rest => exact findM?_cons_false (by simp [Rule.claims?, hn, h]) _

theorem Label.orElse_of_text {label : Label} {text : String} {other : Reading String}
    (h : texts.lookup label.name = some text) : label.orElse texts other = pure text := by
  simp [Label.orElse, h]

theorem Label.orElse_of_no_text {label : Label} {other : Reading String}
    (h : texts.lookup label.name = none) : label.orElse texts other = other := by
  simp [Label.orElse, h]

end Texts

namespace TypeTree

/-- The type at the root. -/
def label : TypeTree → Label
  | .task label => label
  | .carrier label _ _ => label
  | .primitive label _ => label
  | .list label _ => label
  | .dictionary label _ _ => label
  | .optional label _ => label
  | .data label _ _ _ => label
  | .unclaimed label => label

/-- Whether the type at the root is a stream. -/
def isStream : TypeTree → Bool
  | .carrier _ kind _ => kind.isStream
  | _ => false

theorem read_of_text {texts : List (String × String)} {p : Position} {t : TypeTree} {text : String}
    (h : texts.lookup t.label.name = some text) : t.read texts p = pure text := by
  cases t <;> exact Label.orElse_of_text h

end TypeTree

theorem Shape.root_of_tree? {sub : TypeId → Option TypeTree} {label : Label} {s : Shape}
    {t : TypeTree} (h : s.tree? sub label = some t) :
    t.label = label ∧ t.isStream = s.isStream := by
  cases s with
  | task => cases h; exact ⟨rfl, rfl⟩
  | carrier kind inner => obtain ⟨_, _, rfl⟩ := Option.map_eq_some_iff.mp h; exact ⟨rfl, rfl⟩
  | primitive text => cases h; exact ⟨rfl, rfl⟩
  | list element => obtain ⟨_, _, rfl⟩ := Option.map_eq_some_iff.mp h; exact ⟨rfl, rfl⟩
  | dictionary key value =>
    obtain ⟨_, _, h⟩ := Option.bind_eq_some_iff.mp h
    obtain ⟨_, _, rfl⟩ := Option.map_eq_some_iff.mp h
    exact ⟨rfl, rfl⟩
  | optional inner => obtain ⟨_, _, rfl⟩ := Option.map_eq_some_iff.mp h; exact ⟨rfl, rfl⟩
  | data definition name arguments =>
    obtain ⟨_, _, rfl⟩ := Option.map_eq_some_iff.mp h
    exact ⟨rfl, rfl⟩
  | unclaimed => cases h; exact ⟨rfl, rfl⟩

section Follows

variable {texts : List (String × String)} {p : Position} {render : TypeId → RenderM String}
  {sub : TypeId → Option TypeTree}
  (hrender : ∀ a t, sub a = some t → Follows (render a) .nested (t.read texts .nested))
include hrender

theorem Follows.mapM_read {as : List TypeId} {ts : List TypeTree} (h : as.mapM sub = some ts) :
    Follows (as.mapM fun a => nested (render a)) p (TypeTree.readAll texts ts) := by
  have hall := mapM_eq_some_iff.mp h
  clear h
  induction hall with
  | nil => exact .pure []
  | cons ha _ ih =>
    rw [List.mapM_cons, TypeTree.readAll]
    exact .bind (.nested (hrender _ _ ha)) fun _ => .bind ih fun _ => .pure _

/-- The rule for collections follows the reading of a collection. -/
theorem Follows.collection {a : TypeId} {as : List TypeId} {kind : CollectionKind} {s : Shape}
    {label : Label} {t : TypeTree} (has : g.arguments? ty = some (a :: as))
    (hs : Shape.ofKind? kind a as = some s) (ht : s.tree? sub label = some t)
    (hl : texts.lookup label.name = none) :
    Follows (kind.apply g render ty) p (t.read texts p) := by
  have hfirst : g.firstArgument? ty = some (some a) := by
    rw [TypeGraph.firstArgument?, has]
    rfl
  obtain ⟨rfl, rfl, rfl⟩ | ⟨rfl, v, rfl, rfl⟩ | ⟨rfl, rfl, rfl⟩ := Shape.ofKind?_eq_some hs
  · obtain ⟨ta, hta, rfl⟩ := Option.map_eq_some_iff.mp ht
    rw [TypeTree.read, Label.orElse_of_no_text hl]
    exact .typeArgument_bind hfirst (.bind (.nested (hrender _ _ hta)) fun _ => .pure _)
  · obtain ⟨tk, htk, ht⟩ := Option.bind_eq_some_iff.mp ht
    obtain ⟨tv, htv, rfl⟩ := Option.map_eq_some_iff.mp ht
    rw [TypeTree.read, Label.orElse_of_no_text hl]
    exact .lift_bind has (.bind (.nested (hrender _ _ htk)) fun _ =>
      .bind (.nested (hrender _ _ htv)) fun _ => .pure _)
  · obtain ⟨ta, hta, rfl⟩ := Option.map_eq_some_iff.mp ht
    rw [TypeTree.read, Label.orElse_of_no_text hl]
    exact .typeArgument_bind hfirst (.bind (.nested (hrender _ _ hta)) fun _ => .pure _)

/-- The rule for data types follows the reading of a data type. -/
theorem Follows.dataType {d : TypeId} {n : String} {as : List TypeId} {label : Label}
    {ts : List TypeTree} (hd : g.definition? ty = some d) (hn : g.name? ty = some n)
    (has : g.arguments? ty = some as) (hts : as.mapM sub = some ts)
    (hl : texts.lookup label.name = none) :
    Follows (Rule.apply g w render ty .dataType) p ((TypeTree.data label d n ts).read texts p) := by
  rw [TypeTree.read, Label.orElse_of_no_text hl]
  refine .lift_bind hn (.bind (.noteDataType hd) fun _ => .lift_bind has ?_)
  have hall := mapM_eq_some_iff.mp hts
  cases hall with
  | nil => exact .pure n
  | cons _ _ => exact .bind (Follows.mapM_read hrender hts) fun _ => .pure _

end Follows

/-! ## Tasks of streams -/

namespace TypeTree

/-- A task without a fixed text that carries a stream with one. -/
def Bypassed (texts : List (String × String)) : TypeTree → Prop
  | .carrier label kind (.carrier label' kind' _) =>
    kind.isTask = true ∧ kind'.isStream = true ∧ texts.lookup label.name = none ∧
      texts.lookup label'.name ≠ none
  | _ => False

theorem carried?_of_not_stream {texts : List (String × String)} {t : TypeTree}
    (h : t.isStream = false) : t.carried? texts = none := by
  cases t with
  | carrier label kind element =>
    have hkind : kind.isStream = false := h
    rw [carried?, hkind]
    rfl
  | _ => rfl

end TypeTree

/-- Only carriers have the tree of a carrier. -/
theorem Shape.tree?_eq_carrier {sub : TypeId → Option TypeTree} {label label' : Label} {s : Shape}
    {kind : Carrier} {inner : TypeTree}
    (h : s.tree? sub label = some (.carrier label' kind inner)) :
    ∃ a, s = .carrier kind a ∧ label = label' ∧ sub a = some inner := by
  cases s with
  | carrier kind a =>
    obtain ⟨_, hinner, e⟩ := Option.map_eq_some_iff.mp h
    cases e
    exact ⟨a, rfl, rfl, hinner⟩
  | dictionary key value =>
    obtain ⟨_, _, h⟩ := Option.bind_eq_some_iff.mp h
    obtain ⟨_, _, e⟩ := Option.map_eq_some_iff.mp h
    cases e
  | list _ => obtain ⟨_, _, e⟩ := Option.map_eq_some_iff.mp h; cases e
  | optional _ => obtain ⟨_, _, e⟩ := Option.map_eq_some_iff.mp h; cases e
  | data _ _ _ => obtain ⟨_, _, e⟩ := Option.map_eq_some_iff.mp h; cases e
  | _ => cases h

theorem Shape.Fits.carrier_form {kind : Carrier} {a : TypeId} (h : Fits g w ty (.carrier kind a)) :
    w.isTask ty = false ∧ ∃ d as, g.form? ty = some (.constructed d (a :: as)) ∧
      Carrier.of? w d = some kind := by
  cases h with
  | carrier ht hf hkind => exact ⟨ht, _, _, hf, hkind⟩
  | collection _ _ _ _ _ _ hs =>
    obtain ⟨_, _, e⟩ | ⟨_, _, _, e⟩ | ⟨_, _, e⟩ := ofKind?_eq_some hs <;> cases e

section Follows

variable {texts : List (String × String)} {p : Position} (hg : Consistent g)
  (hw : ∀ {ty}, w.isTask ty = true → ∃ head, g.form? ty = some (.declared head))
include hg hw

private theorem isStream?_of_tree {room : Nat} {t : TypeTree}
    (ht : treeWithin g w room ty = some t) :
    w.isStream? g ty = some t.isStream := by
  obtain ⟨_, _, _, s, _, _, _, hfits, htree⟩ := treeWithin_cases hg ht
  rw [hfits.isStream? hw, (Shape.root_of_tree? htree).2]

section Task

variable {room : Nat} {inner : TypeId} {render : TypeId → RenderM String}
  (hfirst : g.firstArgument? ty = some (some inner))
  (hrender : ∀ a t, treeWithin g w room a = some t →
    Follows (render a) .nested (t.read texts .nested))
include hfirst hrender

/-- A task is a promise, except where a hub returns a task of a stream. -/
theorem Follows.task {t : TypeTree} (ht : treeWithin g w room inner = some t)
    (hnot : p = .hubReturn → t.isStream = false) :
    Follows (Rule.apply g w render ty .genericTask) p (promise (t.read texts .nested)) := by
  have hstream := isStream?_of_tree hg hw ht
  have hpromise := Follows.promise (p := p) (hrender _ _ ht)
  refine .typeArgument_bind hfirst (.get_bind fun refs => ?_)
  by_cases hp : p = .hubReturn
  · rw [hnot hp] at hstream
    rw [if_pos hp]
    exact .lift_bind hstream hpromise
  · rw [if_neg hp]
    exact hpromise

/-- Where a hub returns a task of a stream, the rule for tasks goes on to what the stream
carries. -/
theorem Follows.taskOfStream {label : Label} {kind : Carrier} {element : TypeTree}
    (ht : treeWithin g w room inner = some (.carrier label kind element))
    (hkind : kind.isStream = true) :
    Follows (Rule.apply g w render ty .genericTask) .hubReturn
      (wrapped .streamResult (element.read texts .nested)) := by
  have hstream : w.isStream? g inner = some true := by
    rw [isStream?_of_tree hg hw ht, TypeTree.isStream, hkind]
  obtain ⟨below, n, d, s, rfl, _, _, hfits, htree⟩ := treeWithin_cases hg ht
  obtain ⟨a, rfl, _, ha⟩ := Shape.tree?_eq_carrier htree
  obtain ⟨_, d', as, hf, _⟩ := hfits.carrier_form
  refine .typeArgument_bind hfirst (.get_bind fun refs => ?_)
  rw [if_pos rfl]
  refine .lift_bind hstream ?_
  rw [if_pos rfl]
  refine .typeArgument_bind (firstArgument?_of_constructed hf) (.wrapped _ ?_)
  exact hrender a element (treeWithin_mono (Nat.le_succ _) ha)

end Task

/-- A carrier without a fixed text follows its reading, unless it carries a stream with one. -/
theorem Follows.carrier {room : Nat} {label : Label} {kind : Carrier} {inner : TypeId}
    {t : TypeTree} {render : TypeId → RenderM String}
    (hfirst : g.firstArgument? ty = some (some inner))
    (hrender : ∀ a t, treeWithin g w room a = some t →
      Follows (render a) .nested (t.read texts .nested))
    (ht : treeWithin g w room inner = some t) (hl : texts.lookup label.name = none)
    (hp : p = .hubReturn → ¬ (TypeTree.carrier label kind t).Bypassed texts) :
    Follows (Rule.apply g w render ty (if kind.isTask then .genericTask else .stream)) p
      ((TypeTree.carrier label kind t).read texts p) := by
  rw [TypeTree.read, Label.orElse_of_no_text hl]
  cases hkind : kind.isTask with
  | false =>
    refine .typeArgument_bind hfirst (.get_bind fun refs => ?_)
    exact .wrapped _ (hrender _ _ ht)
  | true =>
    rw [if_pos rfl, if_pos rfl]
    by_cases hpos : p = .hubReturn
    · subst hpos
      rw [if_pos rfl]
      cases hstream : t.isStream with
      | false =>
        rw [TypeTree.carried?_of_not_stream hstream]
        exact Follows.task hg hw hfirst hrender ht fun _ => hstream
      | true =>
        cases t with
        | carrier label' kind' element =>
          have hkind' : kind'.isStream = true := hstream
          have hplain : texts.lookup label'.name = none := by
            by_contra htext
            exact hp rfl ⟨hkind, hkind', hl, htext⟩
          rw [TypeTree.carried?, hkind', hplain]
          exact Follows.taskOfStream hg hw hfirst hrender ht hkind'
        | _ => cases hstream
    · rw [if_neg hpos]
      exact Follows.task hg hw hfirst hrender ht fun e => absurd e hpos

/-- Rendering by fixed texts and the built-in rules follows the reading of the tree, except where a
hub returns a task of a stream with a fixed text. -/
theorem renderWithin_follows {room : Nat} {t : TypeTree} (ht : treeWithin g w room ty = some t)
    (hp : p = .hubReturn → ¬ t.Bypassed texts) :
    Follows (renderWithin g w (Rule.withTexts texts) room ty) p (t.read texts p) := by
  induction room generalizing ty t p with
  | zero => cases ht
  | succ room ih =>
    obtain ⟨below, n, d, s, hroom, hn, hd, hfits, htree⟩ := treeWithin_cases hg ht
    cases hroom
    -- inside of a type there are no results of hubs
    have hrender : ∀ a t, treeWithin g w room a = some t →
        Follows (renderWithin g w (Rule.withTexts texts) room a) .nested (t.read texts .nested) :=
      fun _ _ hta => ih hta (fun e => by cases e)
    cases hl : texts.lookup n with
    | some text =>
      have hread : t.read texts p = pure text :=
        TypeTree.read_of_text (by rw [(Shape.root_of_tree? htree).1, hl])
      rw [hread]
      refine .lift_bind (Rule.find?_of_text hn hl) (.lift_bind hn ?_)
      rw [hl]
      exact .pure text
    | none =>
      refine .lift_bind ((Rule.find?_of_no_text hn hl).trans hfits.find?) ?_
      cases hfits with
      | task _ =>
        cases htree
        rw [TypeTree.read, Label.orElse_of_no_text hl]
        exact .pure _
      | carrier _ hf _ =>
        obtain ⟨ta, hta, rfl⟩ := Option.map_eq_some_iff.mp htree
        exact Follows.carrier hg hw (firstArgument?_of_constructed hf) hrender hta hl hp
      | primitive _ _ _ hn' htext =>
        cases htree
        cases hn.symm.trans hn'
        rw [TypeTree.read, Label.orElse_of_no_text hl]
        refine .lift_bind hn ?_
        rw [htext]
        exact .pure _
      | array _ hf _ _ =>
        obtain ⟨ta, hta, rfl⟩ := Option.map_eq_some_iff.mp htree
        rw [TypeTree.read, Label.orElse_of_no_text hl]
        refine .lift_bind (Shape.collectionKind_of_array hf) ?_
        exact .bind (.nested (hrender _ _ hta)) fun _ => .pure _
      | collection _ hf _ hn' _ hkind hs =>
        cases hn.symm.trans hn'
        have hof := Shape.collectionKind_of_arguments hf hn
        rw [hkind] at hof
        rw [Shape.rule?_of_ofKind? hs]
        exact .lift_bind hof (Follows.collection hrender (arguments?_of_form? hf) hs htree hl)
      | data _ _ hd' hn' has =>
        obtain ⟨ts, hts, rfl⟩ := Option.map_eq_some_iff.mp htree
        exact Follows.dataType hrender hd' hn' has hts hl
      | unclaimed _ _ =>
        cases htree
        rw [TypeTree.read, Label.orElse_of_no_text hl]
        exact .refuse hd

end Follows

end HubBindings
