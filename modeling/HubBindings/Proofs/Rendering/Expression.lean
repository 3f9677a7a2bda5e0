import HubBindings.Proofs.Rendering.Overrides

/-!
Texts of types as printed expressions.

* `TypeExpr` is a type in the language of the client, with `print` and the list of its `nodes`;
* `TypeTree.expression?` is the expression of a type where it stands, by recursion on the tree;
* `renderAt?_eq_ok_iff`: a type has a rendering exactly if it has an expression. The rendering
  prints it and refers to what its nodes refer to;
* `stems_of_tree`: every word of the expression is in the table of primitive types, in the settings,
  or the name of a data type.
-/

namespace HubBindings

open Sequencing TypeGraph WellKnown RenderM Reading

variable {g : TypeGraph} {w : WellKnown} {ty : TypeId} {texts : List (String × String)}
  {p : Position}

/-! ## Expressions -/

/-- A type in the language of the client. -/
inductive TypeExpr where
  | keyword (text : String)
  /-- A text that the settings give. -/
  | literal (text : String)
  | promise (inner : TypeExpr)
  | wrapped (wrapper : Wrapper) (element : TypeExpr)
  | list (element : TypeExpr)
  | dictionary (key value : TypeExpr)
  | optional (inner : TypeExpr)
  | data (definition : TypeId) (name : String) (arguments : List TypeExpr)

namespace TypeExpr

mutual

/-- The text of an expression. -/
def print : TypeExpr → String
  | .keyword text => text
  | .literal text => text
  | .promise inner => inAngles "Promise" inner.print
  | .wrapped wrapper element => inAngles wrapper.identifier element.print
  | .list element => element.print ++ "[]"
  | .dictionary key value => "\x7b [key: " ++ key.print ++ "]: " ++ value.print ++ " \x7d"
  | .optional inner => "(" ++ inner.print ++ " | undefined)"
  | .data _ name arguments =>
    if arguments.isEmpty then name else inAngles name (", ".intercalate (printAll arguments))

def printAll : List TypeExpr → List String
  | [] => []
  | e :: es => e.print :: printAll es

end

mutual

/-- The expressions that occur in an expression, itself first. -/
def nodes : TypeExpr → List TypeExpr
  | .keyword text => [.keyword text]
  | .literal text => [.literal text]
  | .promise inner => .promise inner :: inner.nodes
  | .wrapped wrapper element => .wrapped wrapper element :: element.nodes
  | .list element => .list element :: element.nodes
  | .dictionary key value => .dictionary key value :: (key.nodes ++ value.nodes)
  | .optional inner => .optional inner :: inner.nodes
  | .data definition name arguments => .data definition name arguments :: nodesAll arguments

def nodesAll : List TypeExpr → List TypeExpr
  | [] => []
  | e :: es => e.nodes ++ nodesAll es

end

private theorem nodesAll_eq_flatMap (es : List TypeExpr) : nodesAll es = es.flatMap nodes := by
  induction es with
  | nil => rfl
  | cons e es ih => rw [nodesAll, ih, List.flatMap_cons]

theorem self_mem_nodes (e : TypeExpr) : e ∈ e.nodes := by
  cases e <;> exact List.mem_cons_self

/-- What an expression refers to by itself. -/
def note? : TypeExpr → Option Note
  | .wrapped wrapper _ => some (.wrapper wrapper)
  | .data definition _ _ => some (.dataType definition)
  | _ => none

/-- What the nodes of an expression refer to. -/
def notes (e : TypeExpr) : List Note := e.nodes.filterMap note?

theorem mem_notes_wrapper {e : TypeExpr} {x : Wrapper} :
    .wrapper x ∈ e.notes ↔ ∃ element, .wrapped x element ∈ e.nodes := by
  rw [notes, List.mem_filterMap]
  constructor
  · rintro ⟨node, hnode, hnote⟩
    cases node <;> cases hnote
    exact ⟨_, hnode⟩
  · rintro ⟨element, hnode⟩
    exact ⟨_, hnode, rfl⟩

theorem mem_notes_dataType {e : TypeExpr} {d : TypeId} :
    .dataType d ∈ e.notes ↔ ∃ name arguments, .data d name arguments ∈ e.nodes := by
  rw [notes, List.mem_filterMap]
  constructor
  · rintro ⟨node, hnode, hnote⟩
    cases node <;> cases hnote
    exact ⟨_, _, hnode⟩
  · rintro ⟨name, arguments, hnode⟩
    exact ⟨_, hnode, rfl⟩

/-- The rendering that an expression stands for. -/
def rendered (e : TypeExpr) : Rendered :=
  { text := e.print, references := ({} : References).noteAll e.notes }

end TypeExpr

open TypeExpr

/-! ## The expression of a type -/

/-- The fixed text of a type, or else another expression. -/
def Label.exprOrElse (texts : List (String × String)) (label : Label) (other : Option TypeExpr) :
    Option TypeExpr :=
  ((texts.lookup label.name).map fun text => some (.literal text)).getD other

theorem Label.exprOrElse_of_text {label : Label} {text : String} {other : Option TypeExpr}
    (h : texts.lookup label.name = some text) :
    label.exprOrElse texts other = some (.literal text) := by
  simp [Label.exprOrElse, h]

theorem Label.exprOrElse_of_no_text {label : Label} {other : Option TypeExpr}
    (h : texts.lookup label.name = none) : label.exprOrElse texts other = other := by
  simp [Label.exprOrElse, h]

namespace TypeTree

mutual

/-- The expression of a tree at a position, if every type in it has one. -/
def expression? (texts : List (String × String)) (p : Position) : TypeTree → Option TypeExpr
  | .task label => label.exprOrElse texts (some (.promise (.keyword "void")))
  | .carrier label kind inner => label.exprOrElse texts
      (if kind.isTask then
        if p = .hubReturn then
          ((streamed? texts inner).map fun element => element.map (.wrapped .streamResult)).getD
            ((expression? texts .nested inner).map .promise)
        else (expression? texts .nested inner).map .promise
      else (expression? texts .nested inner).map
        (.wrapped (if p = .hubReturn then .streamResult else .subject)))
  | .primitive label text => label.exprOrElse texts (some (.keyword text))
  | .list label element => label.exprOrElse texts ((expression? texts .nested element).map .list)
  | .dictionary label key value => label.exprOrElse texts
      ((expression? texts .nested key).bind fun k =>
        (expression? texts .nested value).map (.dictionary k))
  | .optional label inner => label.exprOrElse texts
      ((expression? texts .nested inner).map .optional)
  | .data label definition name arguments => label.exprOrElse texts
      ((expressions? texts arguments).map (.data definition name))
  | .unclaimed label => label.exprOrElse texts none

/-- What a stream carries, whether the stream has a fixed text or not. -/
def streamed? (texts : List (String × String)) : TypeTree → Option (Option TypeExpr)
  | .carrier _ kind element =>
    if kind.isStream then some (expression? texts .nested element) else none
  | _ => none

/-- The expressions of arguments, if all have one. -/
def expressions? (texts : List (String × String)) : List TypeTree → Option (List TypeExpr)
  | [] => some []
  | t :: ts => (expression? texts .nested t).bind fun e => (expressions? texts ts).map (e :: ·)

end

private theorem expression?_of_text {t : TypeTree} {text : String}
    (h : texts.lookup t.label.name = some text) : t.expression? texts p = some (.literal text) := by
  cases t <;> exact Label.exprOrElse_of_text h

private theorem streamed?_of_not_stream {t : TypeTree} (h : t.isStream = false) :
    t.streamed? texts = none := by
  cases t with
  | carrier label kind element =>
    have hkind : kind.isStream = false := h
    rw [streamed?, hkind]
    rfl
  | _ => rfl

private theorem bypassed_of_text {label : Label} {kind : Carrier} {inner : TypeTree}
    (htask : kind.isTask = true) (hstream : inner.isStream = true)
    (hl : texts.lookup label.name = none) (htext : texts.lookup inner.label.name ≠ none) :
    (carrier label kind inner).Bypassed texts := by
  cases inner with
  | carrier label' kind' element => exact ⟨htask, hstream, hl, htext⟩
  | _ => cases hstream

private theorem expressions?_eq_mapM (ts : List TypeTree) :
    expressions? texts ts = ts.mapM (expression? texts .nested) := by
  induction ts with
  | nil => rfl
  | cons t ts ih =>
    rw [expressions?, ih, List.mapM_cons]
    cases expression? texts .nested t <;> cases ts.mapM (expression? texts .nested) <;> rfl

private theorem expressions?_isEmpty {ts : List TypeTree} {es : List TypeExpr}
    (h : expressions? texts ts = some es) : es.isEmpty = ts.isEmpty := by
  rw [expressions?_eq_mapM, mapM_eq_some_iff] at h
  cases h <;> rfl

end TypeTree

/-- The expression of a type at a position. -/
def expressionAt? (g : TypeGraph) (w : WellKnown) (texts : List (String × String)) (p : Position)
    (ty : TypeId) : Option TypeExpr :=
  (tree? g w ty).bind (·.expression? texts p)

/-! ## Readings that spell expressions -/

namespace Reading

variable {α β γ δ ε ζ : Type}

/-- The reading gives the text and the notes of a value, and fails if there is no value. -/
structure Spells (r : Reading α) (o : Option β) (text : β → α) (noted : β → List Note) : Prop where
  ok : ∀ b, o = some b → r = { result := .ok (text b), notes := noted b }
  error : o = none → ∃ e, r.result = .error e

section Spells

variable {r : Reading α} {s : Reading γ} {o : Option β} {o' : Option δ} {text : β → α}
  {text' : δ → γ} {noted : β → List Note} {noted' : δ → List Note}

theorem Spells.pure {a : α} {b : β} (ha : text b = a) (hn : noted b = []) :
    Spells (pure a) (some b) text noted where
  ok _ h := by
    cases h
    rw [ha, hn]
    rfl
  error h := by cases h

theorem Spells.map {c : β → δ} (hr : Spells r o text noted) (f : α → γ)
    (htext : ∀ b, o = some b → text' (c b) = f (text b)) (hnoted : ∀ b, noted' (c b) = noted b) :
    Spells (do return f (← r)) (o.map c) text' noted' := by
  change Spells (andThen r fun a => Pure.pure (f a)) _ _ _
  cases o with
  | none =>
    obtain ⟨e, he⟩ := hr.error rfl
    exact ⟨fun _ h => by (cases h), fun _ => ⟨e, by rw [andThen, he]⟩⟩
  | some b =>
    rw [hr.ok b rfl]
    refine ⟨fun _ h => ?_, fun h => by (cases h)⟩
    cases h
    rw [htext b rfl, hnoted]
    exact congrArg _ (List.append_nil _)

theorem Spells.map₂ {text'' : ζ → ε} {noted'' : ζ → List Note} {c : β → δ → ζ}
    (hr : Spells r o text noted) (hs : Spells s o' text' noted') (f : α → γ → ε)
    (htext : ∀ b d, text'' (c b d) = f (text b) (text' d))
    (hnoted : ∀ b d, noted'' (c b d) = noted b ++ noted' d) :
    Spells (do
      let a ← r
      let a' ← s
      return f a a') (o.bind fun b => o'.map (c b)) text'' noted'' := by
  change Spells (andThen r fun a => andThen s fun a' => Pure.pure (f a a')) _ _ _
  cases o with
  | none =>
    obtain ⟨e, he⟩ := hr.error rfl
    exact ⟨fun _ h => by (cases h), fun _ => ⟨e, by rw [andThen, he]⟩⟩
  | some b =>
    rw [hr.ok b rfl]
    cases o' with
    | none =>
      obtain ⟨e, he⟩ := hs.error rfl
      exact ⟨fun _ h => by (cases h), fun _ => ⟨e, by simp only [andThen, he]⟩⟩
    | some d =>
      rw [hs.ok d rfl]
      refine ⟨fun _ h => ?_, fun h => by (cases h)⟩
      cases h
      rw [htext, hnoted]
      exact congrArg (fun ns => Reading.mk _ (noted b ++ ns)) (List.append_nil _)

theorem Spells.note_map {n : Note} {c : β → δ} (hr : Spells r o text noted) (f : α → γ)
    (htext : ∀ b, o = some b → text' (c b) = f (text b))
    (hnoted : ∀ b, noted' (c b) = n :: noted b) :
    Spells (do
      note n
      return f (← r)) (o.map c) text' noted' := by
  change Spells (andThen (note n) fun _ => andThen r fun a => Pure.pure (f a)) _ _ _
  cases o with
  | none =>
    obtain ⟨e, he⟩ := hr.error rfl
    exact ⟨fun _ h => by (cases h), fun _ => ⟨e, by simp only [andThen, note, he]⟩⟩
  | some b =>
    rw [hr.ok b rfl]
    refine ⟨fun _ h => ?_, fun h => by (cases h)⟩
    cases h
    rw [htext b rfl, hnoted]
    exact congrArg (fun ns => Reading.mk _ (n :: ns)) (List.append_nil _)

end Spells

/-- The reading spells the expression. -/
abbrev Prints (r : Reading String) (o : Option TypeExpr) : Prop :=
  Spells r o TypeExpr.print TypeExpr.notes

variable {r : Reading String} {o : Option TypeExpr}

theorem Prints.promise (hr : r.Prints o) : r.promise.Prints (o.map .promise) :=
  hr.map _ (fun _ _ => rfl) fun _ => rfl

theorem Prints.wrapped (x : Wrapper) (hr : r.Prints o) :
    (r.wrapped x).Prints (o.map (.wrapped x)) :=
  hr.note_map _ (fun _ _ => rfl) fun _ => rfl

theorem Prints.rendered_eq_ok_iff (h : r.Prints o) {x : Rendered} :
    r.rendered = .ok x ↔ ∃ e, o = some e ∧ x = e.rendered := by
  cases o with
  | none =>
    obtain ⟨e, he⟩ := h.error rfl
    simp [Reading.rendered, he, Except.map]
  | some e =>
    rw [h.ok e rfl]
    simp [Reading.rendered, TypeExpr.rendered, Except.map, eq_comm]

end Reading

theorem Label.orElse_prints {label : Label} {r : Reading String} {o : Option TypeExpr}
    (h : texts.lookup label.name = none → r.Prints o) :
    (label.orElse texts r).Prints (label.exprOrElse texts o) := by
  cases hl : texts.lookup label.name with
  | some text =>
    rw [Label.orElse_of_text hl, Label.exprOrElse_of_text hl]
    exact .pure rfl rfl
  | none =>
    rw [Label.orElse_of_no_text hl, Label.exprOrElse_of_no_text hl]
    exact h hl

namespace TypeTree

mutual

/-- The reading of a tree prints its expression, except at a task of a stream with a fixed text. -/
theorem read_prints (p : Position) (t : TypeTree) (hp : p = .hubReturn → ¬ t.Bypassed texts) :
    (t.read texts p).Prints (t.expression? texts p) := by
  cases t with
  | task label => exact Label.orElse_prints fun _ => .pure rfl rfl
  | carrier label kind inner =>
    refine Label.orElse_prints fun hl => ?_
    have hinner := read_prints .nested inner (fun e => by cases e)
    split_ifs with htask hpos
    · cases hstream : inner.isStream with
      | false =>
        rw [carried?_of_not_stream hstream, streamed?_of_not_stream hstream]
        exact hinner.promise
      | true =>
        have hplain : texts.lookup inner.label.name = none := by
          by_contra htext
          exact hp hpos (bypassed_of_text htask hstream hl htext)
        obtain ⟨r, o, hr, ho, hprints⟩ := carried?_prints inner hstream hplain
        rw [hr, ho]
        exact hprints.wrapped _
    · exact hinner.promise
    · exact hinner.wrapped _
    · exact hinner.wrapped _
  | primitive label text => exact Label.orElse_prints fun _ => .pure rfl rfl
  | list label element =>
    have helement := read_prints .nested element (fun e => by cases e)
    exact Label.orElse_prints fun _ => helement.map _ (fun _ _ => rfl) fun _ => rfl
  | dictionary label key value =>
    have hkey := read_prints .nested key (fun e => by cases e)
    have hvalue := read_prints .nested value (fun e => by cases e)
    exact Label.orElse_prints fun _ =>
      hkey.map₂ hvalue _ (fun _ _ => rfl) fun _ _ => List.filterMap_append
  | optional label inner =>
    have hinner := read_prints .nested inner (fun e => by cases e)
    exact Label.orElse_prints fun _ => hinner.map _ (fun _ _ => rfl) fun _ => rfl
  | data label definition name arguments =>
    refine Label.orElse_prints fun _ => (readAll_spells arguments).note_map _ ?_ fun _ => rfl
    intro es hes
    rw [print, expressions?_isEmpty hes]
  | unclaimed label =>
    exact Label.orElse_prints fun _ => ⟨fun _ h => (nomatch h), fun _ => ⟨_, rfl⟩⟩

private theorem carried?_prints (t : TypeTree) (hstream : t.isStream = true)
    (hl : texts.lookup t.label.name = none) :
    ∃ r o, t.carried? texts = some r ∧ t.streamed? texts = some o ∧ r.Prints o := by
  cases t with
  | carrier label kind element =>
    have hkind : kind.isStream = true := hstream
    have hlabel : texts.lookup label.name = none := hl
    refine ⟨_, _, ?_, ?_, read_prints .nested element (fun e => by cases e)⟩
    · rw [carried?, hkind, hlabel]
      rfl
    · rw [streamed?, if_pos hkind]
  | _ => cases hstream

private theorem readAll_spells (ts : List TypeTree) :
    Spells (readAll texts ts) (expressions? texts ts) printAll
      (fun es => (nodesAll es).filterMap note?) := by
  cases ts with
  | nil => exact .pure rfl rfl
  | cons t ts =>
    have ht := read_prints .nested t (fun e => by cases e)
    exact ht.map₂ (readAll_spells ts) _ (fun _ _ => rfl) fun _ _ => List.filterMap_append

end

end TypeTree

/-! ## Renderings -/

section Consistent

variable (hg : Consistent g)
  (hw : ∀ {ty}, w.isTask ty = true → ∃ head, g.form? ty = some (.declared head))
include hg hw

/-- A type has a rendering exactly if it has an expression, and then it is the printed one. -/
theorem renderAt?_eq_ok_iff {t : TypeTree} (ht : tree? g w ty = some t) {r : Rendered} :
    renderAt? g w (Rule.withTexts texts) p ty = some (.ok r) ↔
      ∃ e, t.expression? texts p = some e ∧ r = e.rendered := by
  by_cases hby : Bypasses g w texts p ty
  · obtain rfl : p = .hubReturn := hby.1
    have hbypassed := (bypassed_iff hg hw ht).mp hby
    obtain ⟨label, kind, label', kind', element, rfl⟩ := hbypassed.carriers
    obtain ⟨htask, hstream, hl, _⟩ := id hbypassed
    -- the fixed text of the stream has no part in its expression either
    have hexpression : (TypeTree.carrier label kind (.carrier label' kind' element)).expression?
        texts .hubReturn = (element.expression? texts .nested).map (.wrapped .streamResult) := by
      rw [TypeTree.expression?, Label.exprOrElse_of_no_text hl, if_pos htask, if_pos rfl,
        TypeTree.streamed?, if_pos hstream]
      rfl
    have helement : (element.read texts .nested).Prints (element.expression? texts .nested) :=
      element.read_prints .nested (fun e => by cases e)
    rw [renderAt?_of_bypassed hg hw ht hbypassed, hexpression, Option.some.injEq]
    exact (helement.wrapped .streamResult).rendered_eq_ok_iff
  · rw [renderAt?_of_tree hg hw ht hby, Option.some.injEq]
    refine (t.read_prints p ?_).rendered_eq_ok_iff
    rintro rfl hbypassed
    exact hby ((bypassed_iff hg hw ht).mpr hbypassed)

end Consistent

/-! ## What the nodes stand for -/

/-- A marked type that is no array, with its definition and its name. -/
structure DataType (g : TypeGraph) (w : WellKnown) (ty d : TypeId) (n : String) : Prop where
  element : g.element? ty = some none
  marked : g.hasAttribute? ty w.dataTypeMarker = some true
  definition : g.definition? ty = some d
  name : g.name? ty = some n

theorem DataType.issued {d : TypeId} {n : String} (h : DataType g w ty d n) : g.Issued ty := by
  have helement := h.element
  rw [element?_eq_form?] at helement
  obtain ⟨f, hf, _⟩ := Option.map_eq_some_iff.mp helement
  exact issued_iff_form?.mpr ⟨f, hf⟩

/-- Where the words of an expression come from: those that are not built up are in the table of
primitive types or in the settings, and the others are names of data types. -/
def TypeExpr.Stems (g : TypeGraph) (w : WellKnown) (texts : List (String × String)) :
    TypeExpr → Prop
  | .keyword text => text = "void" ∨ ∃ n, primitiveTexts.lookup n = some text
  | .literal text => ∃ ty n, g.metadataName? ty = some n ∧ texts.lookup n = some text
  | .data d n _ => ∃ ty, DataType g w ty d n
  | _ => True

/-- A carrier without a fixed text wraps what it carries, or what the stream in it carries. -/
theorem TypeTree.carrier_expression? {label : Label} {kind : Carrier} {inner : TypeTree}
    {e : TypeExpr} (hl : texts.lookup label.name = none)
    (h : (TypeTree.carrier label kind inner).expression? texts p = some e) :
    (∃ a, inner.expression? texts .nested = some a ∧ (e = .promise a ∨ ∃ x, e = .wrapped x a)) ∨
      ∃ label' kind' element a, inner = .carrier label' kind' element ∧
        element.expression? texts .nested = some a ∧ e = .wrapped .streamResult a := by
  rw [expression?, Label.exprOrElse_of_no_text hl] at h
  have hpromise : (inner.expression? texts .nested).map .promise = some e →
      ∃ a, inner.expression? texts .nested = some a ∧ (e = .promise a ∨ ∃ x, e = .wrapped x a) := by
    intro h
    obtain ⟨a, ha, rfl⟩ := Option.map_eq_some_iff.mp h
    exact ⟨a, ha, .inl rfl⟩
  split_ifs at h with htask hp hp
  · cases hstream : inner.streamed? texts with
    | none =>
      rw [hstream] at h
      exact .inl (hpromise h)
    | some o =>
      rw [hstream] at h
      obtain ⟨a, rfl, rfl⟩ := Option.map_eq_some_iff.mp h
      cases inner with
      | carrier label' kind' element =>
        rw [streamed?] at hstream
        split_ifs at hstream
        exact .inr ⟨label', kind', element, a, rfl, Option.some.inj hstream, rfl⟩
      | _ => cases hstream
  · exact .inl (hpromise h)
  · obtain ⟨a, ha, rfl⟩ := Option.map_eq_some_iff.mp h
    exact .inl ⟨a, ha, .inr ⟨_, rfl⟩⟩
  · obtain ⟨a, ha, rfl⟩ := Option.map_eq_some_iff.mp h
    exact .inl ⟨a, ha, .inr ⟨_, rfl⟩⟩

/-- An expression with one part stems from where the part does. -/
theorem stems_of_part {c : TypeExpr → TypeExpr} {o : Option TypeExpr} {e : TypeExpr}
    (hnodes : ∀ a, (c a).nodes = c a :: a.nodes) (hc : ∀ a, (c a).Stems g w texts)
    (ho : ∀ a, o = some a → ∀ node ∈ a.nodes, node.Stems g w texts) (he : o.map c = some e) :
    ∀ node ∈ e.nodes, node.Stems g w texts := by
  obtain ⟨a, ha, rfl⟩ := Option.map_eq_some_iff.mp he
  rw [hnodes]
  exact List.forall_mem_cons.mpr ⟨hc a, ho a ha⟩

/-- Every node of the expression of a type stems from the graph, the table or the settings. -/
theorem stems_of_tree (hg : Consistent g) {room : Nat} {t : TypeTree} {e : TypeExpr}
    (ht : treeWithin g w room ty = some t) (he : t.expression? texts p = some e) :
    ∀ node ∈ e.nodes, node.Stems g w texts := by
  induction room generalizing ty t p e with
  | zero => cases ht
  | succ room ih =>
    obtain ⟨below, n, d, s, hroom, hn, _, hfits, htree⟩ := treeWithin_cases hg ht
    cases hroom
    cases hl : texts.lookup n with
    | some text =>
      rw [TypeTree.expression?_of_text (by rw [(Shape.root_of_tree? htree).1, hl])] at he
      cases he
      simpa [nodes] using ⟨ty, n, hn, hl⟩
    | none =>
      -- a node is the expression itself or stands in the expression of a part
      cases hfits with
      | task _ =>
        cases htree
        rw [TypeTree.expression?, Label.exprOrElse_of_no_text hl] at he
        cases he
        simp [nodes, Stems]
      | carrier _ _ _ =>
        obtain ⟨inner, hinner, rfl⟩ := Option.map_eq_some_iff.mp htree
        rcases TypeTree.carrier_expression? hl he with
          ⟨a, ha, rfl | ⟨x, rfl⟩⟩ | ⟨label', kind', element, a, rfl, ha, rfl⟩
        · exact List.forall_mem_cons.mpr ⟨trivial, ih hinner ha⟩
        · exact List.forall_mem_cons.mpr ⟨trivial, ih hinner ha⟩
        · obtain ⟨below, _, _, _, rfl, _, _, _, htree'⟩ := treeWithin_cases hg hinner
          obtain ⟨_, _, _, helement⟩ := Shape.tree?_eq_carrier htree'
          have hroom := treeWithin_mono (Nat.le_succ below) helement
          exact List.forall_mem_cons.mpr ⟨trivial, ih hroom ha⟩
      | primitive _ _ _ _ htext =>
        cases htree
        rw [TypeTree.expression?, Label.exprOrElse_of_no_text hl] at he
        cases he
        simpa [nodes, Stems] using .inr ⟨_, htext⟩
      | array _ _ _ _ =>
        obtain ⟨element, helement, rfl⟩ := Option.map_eq_some_iff.mp htree
        rw [TypeTree.expression?, Label.exprOrElse_of_no_text hl] at he
        exact stems_of_part (c := .list) (fun _ => rfl) (fun _ => trivial) (fun _ => ih helement) he
      | collection _ _ _ _ _ _ hs =>
        obtain ⟨_, _, rfl⟩ | ⟨_, v, _, rfl⟩ | ⟨_, _, rfl⟩ := Shape.ofKind?_eq_some hs
        · obtain ⟨element, helement, rfl⟩ := Option.map_eq_some_iff.mp htree
          rw [TypeTree.expression?, Label.exprOrElse_of_no_text hl] at he
          exact stems_of_part (c := .list) (fun _ => rfl) (fun _ => trivial) (fun _ => ih helement)
            he
        · obtain ⟨key, hkey, htree⟩ := Option.bind_eq_some_iff.mp htree
          obtain ⟨value, hvalue, rfl⟩ := Option.map_eq_some_iff.mp htree
          rw [TypeTree.expression?, Label.exprOrElse_of_no_text hl] at he
          obtain ⟨a, ha, he⟩ := Option.bind_eq_some_iff.mp he
          obtain ⟨b, hb, rfl⟩ := Option.map_eq_some_iff.mp he
          exact List.forall_mem_cons.mpr
            ⟨trivial, List.forall_mem_append.mpr ⟨ih hkey ha, ih hvalue hb⟩⟩
        · obtain ⟨inner, hinner, rfl⟩ := Option.map_eq_some_iff.mp htree
          rw [TypeTree.expression?, Label.exprOrElse_of_no_text hl] at he
          exact stems_of_part (c := .optional) (fun _ => rfl) (fun _ => trivial)
            (fun _ => ih hinner) he
      | data hunlisted hmarked hd hname _ =>
        obtain ⟨ts, hts, rfl⟩ := Option.map_eq_some_iff.mp htree
        rw [TypeTree.expression?, Label.exprOrElse_of_no_text hl] at he
        obtain ⟨es, hes, rfl⟩ := Option.map_eq_some_iff.mp he
        refine List.forall_mem_cons.mpr ⟨⟨ty, hunlisted.element, hmarked, hd, hname⟩, ?_⟩
        rw [nodesAll_eq_flatMap]
        intro node hnode
        obtain ⟨a, ha, hnode⟩ := List.mem_flatMap.mp hnode
        rw [TypeTree.expressions?_eq_mapM] at hes
        obtain ⟨u, hu, hua⟩ := exists_of_mem_right (mapM_eq_some_iff.mp hes) ha
        obtain ⟨b, _, hbu⟩ := exists_of_mem_right (mapM_eq_some_iff.mp hts) hu
        exact ih hbu hua node hnode
      | unclaimed _ _ =>
        cases htree
        rw [TypeTree.expression?, Label.exprOrElse_of_no_text hl] at he
        cases he

/-- A rendering prints the expression of the type. -/
theorem exists_expressionAt? (hg : Consistent g)
    (hw : ∀ {ty}, w.isTask ty = true → ∃ head, g.form? ty = some (.declared head))
    {r : Rendered} (hty : g.Issued ty)
    (h : renderAt? g w (Rule.withTexts texts) p ty = some (.ok r)) :
    ∃ e, expressionAt? g w texts p ty = some e ∧ r = e.rendered ∧
      ∀ node ∈ e.nodes, node.Stems g w texts := by
  obtain ⟨t, ht⟩ := exists_tree? (w := w) hg hty
  obtain ⟨e, he, hr⟩ := (renderAt?_eq_ok_iff hg hw ht).mp h
  exact ⟨e, by rw [expressionAt?, ht, Option.bind_some, he], hr, stems_of_tree hg ht he⟩

end HubBindings
