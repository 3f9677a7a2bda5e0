import HubBindings.Client.IndexFile
import HubBindings.Proofs.Binding
import HubBindings.Proofs.Rendering.Domain
import HubBindings.Proofs.Rendering.Expression
import HubBindings.Proofs.Text.Nesting

/-!
Texts of types can be put together and taken apart.

* `print_selfContained`: an expression prints a self-contained text if its words are so and the
  names in it have no delimiters, by recursion on the expression;
* `renderings_selfContained`: the built-in rules render every type so. What is made of such texts
  can be read back: the element of an array, type arguments, tuples and lists of parameters.
-/

namespace HubBindings

open TypeGraph WellKnown TypeExpr Text

variable {g : TypeGraph} {w : WellKnown}

/-! ## Texts with brackets -/

private theorem nested_intercalate {ts : List String} (h : ∀ t ∈ ts, SelfContained t) :
    Nested separators (", ".intercalate ts).toList := by
  have hcomma : Nested separators ", ".toList := .of_chars (by decide)
  induction ts with
  | nil => exact .nil
  | cons t ts ih =>
    obtain ⟨ht, hts⟩ := List.forall_mem_cons.mp h
    cases ts with
    | nil => simpa using Nested.of_selfContained ht
    | cons u us =>
      rw [String.intercalate_cons_cons, String.toList_append, String.toList_append]
      exact ((Nested.of_selfContained ht).append hcomma).append (ih hts)

private theorem selfContained_inAngles {name inner : String} (hname : Plain name)
    (h : Nested separators inner.toList) : SelfContained (inAngles name inner) := by
  have hchars : (inAngles name inner).toList = name.toList ++ '<' :: (inner.toList ++ ['>']) := by
    simp [inAngles]
  rw [SelfContained, hchars]
  exact (Nested.of_plain hname).append (.enclosed .angle h)

private theorem selfContained_list {element : String} (h : SelfContained element) :
    SelfContained (element ++ "[]") := by
  have hchars : (element ++ "[]").toList = element.toList ++ '[' :: ([] ++ [']']) := by simp
  rw [SelfContained, hchars]
  exact Nested.append h (.enclosed .square .nil)

private theorem selfContained_optional {inner : String} (h : SelfContained inner) :
    SelfContained ("(" ++ inner ++ " | undefined)") := by
  have hchars : ("(" ++ inner ++ " | undefined)").toList =
      '(' :: (inner.toList ++ " | undefined".toList ++ [')']) := by simp
  have hnone : Nested separators " | undefined".toList := .of_chars (by decide)
  rw [SelfContained, hchars]
  exact .enclosed .round ((Nested.of_selfContained h).append hnone)

private theorem selfContained_dictionary {key value : String} (hk : SelfContained key)
    (hv : SelfContained value) :
    SelfContained ("\x7b [key: " ++ key ++ "]: " ++ value ++ " \x7d") := by
  have hkey : Nested separators ('[' :: ("key: ".toList ++ key.toList ++ [']'])) :=
    .enclosed .square (.append (.of_chars (by decide)) (.of_selfContained hk))
  have hblank : Nested separators " ".toList := .of_chars (by decide)
  have hcolon : Nested separators ": ".toList := .of_chars (by decide)
  have hinner := (((hblank.append hkey).append hcolon).append (.of_selfContained hv)).append hblank
  have hchars : ("\x7b [key: " ++ key ++ "]: " ++ value ++ " \x7d").toList =
      '\x7b' :: (" ".toList ++ ('[' :: ("key: ".toList ++ key.toList ++ [']'])) ++ ": ".toList
        ++ value.toList ++ " ".toList ++ ['\x7d']) := by simp
  rw [SelfContained, hchars]
  exact .enclosed .curly hinner

/-! ## Printed expressions -/

namespace TypeExpr

/-- The word of a node is self-contained, and a name has no delimiters at all. -/
def Tidy : TypeExpr → Prop
  | .keyword text => SelfContained text
  | .literal text => SelfContained text
  | .data _ name _ => Plain name
  | _ => True

mutual

theorem print_selfContained (e : TypeExpr) (h : ∀ node ∈ e.nodes, node.Tidy) :
    SelfContained e.print := by
  have hself := h e e.self_mem_nodes
  cases e with
  | keyword text => exact hself
  | literal text => exact hself
  | promise inner =>
    have hinner := print_selfContained inner fun node hnode => h node (List.mem_cons_of_mem _ hnode)
    exact selfContained_inAngles (by decide) (.of_selfContained hinner)
  | wrapped wrapper element =>
    have helement :=
      print_selfContained element fun node hnode => h node (List.mem_cons_of_mem _ hnode)
    have hname : Plain wrapper.identifier := by cases wrapper <;> decide
    exact selfContained_inAngles hname (.of_selfContained helement)
  | list element =>
    exact selfContained_list
      (print_selfContained element fun node hnode => h node (List.mem_cons_of_mem _ hnode))
  | dictionary key value =>
    obtain ⟨hk, hv⟩ := List.forall_mem_append.mp (List.forall_mem_cons.mp h).2
    exact selfContained_dictionary (print_selfContained key hk) (print_selfContained value hv)
  | optional inner =>
    exact selfContained_optional
      (print_selfContained inner fun node hnode => h node (List.mem_cons_of_mem _ hnode))
  | data definition name arguments =>
    have harguments :=
      printAll_selfContained arguments fun node hnode => h node (List.mem_cons_of_mem _ hnode)
    rw [print]
    split_ifs with hempty
    · exact Nested.of_plain hself
    · exact selfContained_inAngles hself (nested_intercalate harguments)

private theorem printAll_selfContained (es : List TypeExpr) (h : ∀ node ∈ nodesAll es, node.Tidy) :
    ∀ text ∈ printAll es, SelfContained text := by
  cases es with
  | nil => exact fun text htext => absurd htext List.not_mem_nil
  | cons e es =>
    obtain ⟨he, hes⟩ := List.forall_mem_append.mp h
    exact List.forall_mem_cons.mpr ⟨print_selfContained e he, printAll_selfContained es hes⟩

end

/-- Only words and names without arguments are printed as they are. -/
theorem print_ne_empty {e : TypeExpr} (hkeyword : ∀ text, e = .keyword text → text ≠ "")
    (hliteral : ∀ text, e = .literal text → text ≠ "")
    (hdata : ∀ d name arguments, e = .data d name arguments → name ≠ "") : e.print ≠ "" := by
  cases e with
  | keyword text => exact hkeyword text rfl
  | literal text => exact hliteral text rfl
  | data d name arguments =>
    have hname := hdata d name arguments rfl
    rw [print]
    split_ifs <;> simp [inAngles, hname]
  | _ => simp [print, inAngles]

end TypeExpr

/-! ## Renderings by the built-in rules -/

/-- The words for primitive types are self-contained and not empty. -/
theorem selfContained_of_primitive {n text : String} (h : primitiveTexts.lookup n = some text) :
    SelfContained text ∧ text ≠ "" := by
  have htable : ∀ q ∈ primitiveTexts, Plain q.2 ∧ q.2 ≠ "" ∨ q.2 = "(Date | string)" := by decide
  have hdate : SelfContained "(Date | string)" :=
    .enclosed .round (s := "Date | string".toList) (.of_chars (by decide))
  obtain ⟨hplain, hne⟩ | heq := htable _ (Ascending.mem_of_lookup h)
  · exact ⟨Nested.of_plain hplain, hne⟩
  · rw [show text = _ from heq]
    exact ⟨hdate, by decide⟩

theorem TypeExpr.Stems.tidy {e : TypeExpr} (h : e.Stems g w [])
    (hnames : ∀ ty d n, DataType g w ty d n → Plain n) : e.Tidy := by
  cases e with
  | keyword text =>
    obtain rfl | ⟨n, hn⟩ := h
    · exact Nested.of_chars (by decide)
    · exact (selfContained_of_primitive hn).1
  | literal text =>
    obtain ⟨_, _, _, htext⟩ := h
    cases htext
  | data d name arguments =>
    obtain ⟨ty, hty⟩ := h
    exact hnames ty d name hty
  | _ => trivial

theorem TypeExpr.Stems.print_ne_empty {e : TypeExpr} (h : e.Stems g w [])
    (hnames : ∀ ty d n, DataType g w ty d n → n ≠ "") : e.print ≠ "" := by
  refine TypeExpr.print_ne_empty ?_ ?_ ?_
  · rintro text rfl
    obtain rfl | ⟨n, hn⟩ := h
    · decide
    · exact (selfContained_of_primitive hn).2
  · rintro text rfl
    obtain ⟨_, _, _, htext⟩ := h
    cases htext
  · rintro d name arguments rfl
    obtain ⟨ty, hty⟩ := h
    exact hnames ty d name hty

/-- Texts that can be read back from what they are put together to: arrays, type arguments and
tuples. -/
structure ReadBack (ts : List String) : Prop where
  element : ∀ t ∈ ts, readElement? (t ++ "[]") = some t
  arguments : ∀ name, Plain name →
    readGeneric? (inAngles name (", ".intercalate ts)) = some (name, ts)
  tuple : readItems? .square ("[" ++ ", ".intercalate ts ++ "]").toList = some ts

private theorem readBack_of_selfContained {ts : List String} (hne : ts ≠ [])
    (h : ∀ t ∈ ts, SelfContained t) : ReadBack ts where
  element t ht := readElement?_append (h t ht)
  arguments name hname := readGeneric?_eq hname hne h
  tuple := by
    have hchars : ("[" ++ ", ".intercalate ts ++ "]").toList =
        '[' :: ((", ".intercalate ts).toList ++ [']']) := by simp
    rw [hchars]
    exact readItems?_enclosed .square hne h

/-- A bound method whose names and types can be read back from the list of its parameters, and its
types from the tuple in its listener. -/
structure MethodReadBack (bm : BoundMethod) : Prop where
  parameters : readNamedList? bm.parameterList = some (bm.parameters.map fun q => (q.name, q.text))
  tuple : bm.parameters ≠ [] → ∃ tuple,
    (Client.Listener.ofMethod bm).definition =
      "const " ++ (Client.Listener.ofMethod bm).handler ++ " = (...args: " ++ tuple
        ++ ") => receiver." ++ bm.localName ++ "(...args);" ∧
    readItems? .square tuple.toList = some (bm.parameters.map (·.text))

private theorem methodReadBack_of_selfContained {bm : BoundMethod}
    (h : ∀ q ∈ bm.parameters, Plain q.name ∧ SelfContained q.text) : MethodReadBack bm where
  parameters := by
    have hnamed : bm.parameterList =
        ", ".intercalate ((bm.parameters.map fun q => (q.name, q.text)).map named) := by
      rw [BoundMethod.parameterList, List.map_map]
      rfl
    rw [hnamed]
    exact readNamedList?_intercalate (List.forall_mem_map.mpr h)
  tuple hne := by
    have hread : ReadBack (bm.parameters.map (·.text)) :=
      readBack_of_selfContained (by simpa using hne)
        (List.forall_mem_map.mpr fun q hq => (h q hq).2)
    refine ⟨_, ?_, hread.tuple⟩
    obtain ⟨q, qs, hqs⟩ := List.exists_cons_of_ne_nil hne
    rw [← String.toList_inj]
    simp [Client.Listener.definition, Client.Listener.ofMethod, hqs]

/-- If names of data types have no delimiters, the built-in rules render every type as a
self-contained text, which is not empty if the names are not. Texts that are put together can be
read back. -/
theorem renderings_selfContained (hg : g.Reachable) {names : WellKnownNames}
    (hw : WellKnown.resolve g names = .ok w)
    (hnames : ∀ ty d n, DataType g w ty d n → Plain n) :
    (∀ p ty text, g.Issued ty → Binding.Renders (renderAt? g w Rule.builtin) p ty text →
      SelfContained text ∧ ((∀ ty d n, DataType g w ty d n → n ≠ "") → text ≠ "")) ∧
    (∀ ts, ts ≠ [] →
      (∀ t ∈ ts, ∃ p ty, g.Issued ty ∧ Binding.Renders (renderAt? g w Rule.builtin) p ty t) →
        ReadBack ts) ∧
    ∀ role m bm, Binding.Binds g w (renderAt? g w Rule.builtin) role m bm →
      (∀ q ∈ bm.parameters, Plain q.name) → MethodReadBack bm := by
  have hrender : ∀ p ty text, g.Issued ty → Binding.Renders (renderAt? g w Rule.builtin) p ty text →
      ∃ e : TypeExpr, text = e.print ∧ ∀ node ∈ e.nodes, node.Stems g w [] := by
    rintro p ty _ hty ⟨r, hr, rfl⟩
    have hr : renderAt? g w (Rule.withTexts []) p ty = some (.ok r) := hr
    obtain ⟨e, _, rfl, hstems⟩ := exists_expressionAt? hg.consistent
      (fun h => WellKnown.resolve_isTask hg.coherent hw h) hty hr
    exact ⟨e, rfl, hstems⟩
  have hself : ∀ p ty text, g.Issued ty → Binding.Renders (renderAt? g w Rule.builtin) p ty text →
      SelfContained text := by
    intro p ty text hty h
    obtain ⟨e, rfl, hstems⟩ := hrender p ty text hty h
    exact e.print_selfContained fun node hnode => (hstems node hnode).tidy hnames
  refine ⟨fun p ty text hty h => ⟨hself p ty text hty h, fun hne => ?_⟩, ?_, ?_⟩
  · obtain ⟨e, rfl, hstems⟩ := hrender p ty text hty h
    exact (hstems e e.self_mem_nodes).print_ne_empty hne
  · intro ts hne hts
    refine readBack_of_selfContained hne fun t ht => ?_
    obtain ⟨p, ty, hty, h⟩ := hts t ht
    exact hself p ty t hty h
  · intro role m bm hbinds hplain
    refine methodReadBack_of_selfContained fun q hq => ⟨hplain q hq, ?_⟩
    obtain ⟨parameter, _, hbound⟩ := Sequencing.exists_of_mem_right hbinds.parameters hq
    exact hself _ _ _ (issued_of_display? hbound.display) hbound.text

/-- A data type with two parameters beside the dictionaries, and a pair of a dictionary and a
box. -/
def pairTypes : TypeGraph :=
  (TypeGraph.declareAll
    [{ head := { kind := .classType, nameSpace := "App", name := "Pair", arity := 2 }
       attributes := [⟨2⟩] }] stockTypes).withConstruction ⟨15⟩ [⟨13⟩, ⟨10⟩]

private theorem pairTypes_reachable : pairTypes.Reachable :=
  (stockTypes_reachable.declareAll (by decide +kernel)).withConstruction ⟨15⟩ [⟨13⟩, ⟨10⟩]
    (by decide +kernel) (by decide +kernel) rfl

private theorem pairTypes_names {ty d : TypeId} {n : String} (h : DataType pairTypes w ty d n) :
    Plain n := by
  have hall : ∀ i < 17, (pairTypes.name? ⟨i⟩).all (fun n => decide (Plain n)) = true := by
    decide +kernel
  have hlt : ty.index < 17 := Nat.lt_of_lt_of_eq h.issued (by decide +kernel)
  have hplain := hall ty.index hlt
  rw [show (⟨ty.index⟩ : TypeId) = ty from rfl, h.name] at hplain
  simpa using hplain

/-- The pair is read back from the list of type arguments, though there are commas inside of it. -/
theorem pairTypes_selfContained :
    pairTypes.Reachable ∧
      ∃ w, WellKnown.resolve pairTypes {} = .ok w ∧
        (∀ ty d n, DataType pairTypes w ty d n → Plain n) ∧
        Binding.Renders (renderAt? pairTypes w Rule.builtin) .argument ⟨16⟩
          "Pair<\x7b [key: Box<number>]: number[] \x7d, Box<number>>" ∧
        SelfContained "Pair<\x7b [key: Box<number>]: number[] \x7d, Box<number>>" ∧
        ReadBack ["Pair<\x7b [key: Box<number>]: number[] \x7d, Box<number>>", "Box<number>"] := by
  obtain ⟨w, hw⟩ : ∃ w, WellKnown.resolve pairTypes {} = .ok w := ⟨_, rfl⟩
  have hissued : pairTypes.Issued ⟨16⟩ ∧ pairTypes.Issued ⟨10⟩ := by decide +kernel
  have hpair : Binding.Renders (renderAt? pairTypes w Rule.builtin) .argument ⟨16⟩
      "Pair<\x7b [key: Box<number>]: number[] \x7d, Box<number>>" := by
    cases hw
    exact ⟨_, rfl, by decide +kernel⟩
  have hbox :
      Binding.Renders (renderAt? pairTypes w Rule.builtin) .argument ⟨10⟩ "Box<number>" := by
    cases hw
    exact ⟨_, rfl, by decide +kernel⟩
  obtain ⟨hself, hread, _⟩ :=
    renderings_selfContained pairTypes_reachable hw fun _ _ _ => pairTypes_names
  refine ⟨pairTypes_reachable, w, hw, fun _ _ _ => pairTypes_names, hpair,
    (hself _ _ _ hissued.1 hpair).1, hread _ (List.cons_ne_nil _ _) ?_⟩
  simp only [List.forall_mem_cons]
  exact ⟨⟨_, _, hissued.1, hpair⟩, ⟨_, _, hissued.2, hbox⟩, fun _ ht => absurd ht List.not_mem_nil⟩

end HubBindings
