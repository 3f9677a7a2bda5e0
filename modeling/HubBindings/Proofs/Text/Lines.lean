import HubBindings.Proofs.Text.Layout
import HubBindings.Proofs.Text.Tokens
import Mathlib.Data.List.Nodup

/-!
Texts as lines.

* `withBreaks` gives a text one form of line breaks. It goes through a text piece by piece, as long
  as no pair `\r\n` is made where two pieces meet (`withBreaks_append`), and leaves a text as it is
  exactly if all its line breaks have that form (`withBreaks_eq_self_iff`);
* `Prints` says which lines a list of steps writes, and `normalizeBreaks_layout` that these lines
  are the text.
-/

namespace HubBindings.Text

/-! ## One form of line breaks -/

/-- A text with the line ending `e` in the place of each line break. -/
def withBreaks (e : LineEnding) (s : String) : String :=
  String.ofList ((Token.read s.toList).flatMap (Token.charsBy e))

private theorem normalizeBreaks_eq (e : LineEnding) (s : String) :
    normalizeBreaks e s = withBreaks e s := by
  rw [normalizeBreaks, normalizeChars_eq_read, withBreaks]

private theorem not_mem_intercalate {ls : List (List Char)} (h : ∀ l ∈ ls, '\r' ∉ l) :
    '\r' ∉ ['\n'].intercalate ls := by
  induction ls with
  | nil => exact List.not_mem_nil
  | cons l ls ih =>
    obtain ⟨hl, hls⟩ := List.forall_mem_cons.mp h
    cases ls with
    | nil => simpa using hl
    | cons l' ls =>
      have hrest := ih hls
      simp [List.intercalate_cons_cons, hl, hrest]

/-- Texts are left as they are exactly if their line breaks have the form. -/
theorem withBreaks_eq_self_iff {e : LineEnding} {s : String} :
    withBreaks e s = s ↔ BreaksBy e s := by
  rw [← normalizeBreaks_eq]
  constructor
  · intro h
    rw [← h]
    exact normalizeBreaks_breaksBy e s
  · rintro ⟨ls, hls, hs⟩
    rw [normalizeBreaks, ← String.toList_inj, String.toList_ofList, hs]
    by_cases hempty : ls = []
    · rw [hempty]
      rfl
    · have hsplit : (['\n'].intercalate ls).splitOn '\n' = ls :=
        List.splitOn_intercalate '\n' (fun l hl => (hls l hl).2) hempty
      have hfree : '\r' ∉ ['\n'].intercalate ls := not_mem_intercalate fun l hl => (hls l hl).1
      have hunify : unifyBreaks (e.chars.intercalate ls) = ['\n'].intercalate ls := by
        rw [← unifyBreaks_flatMap e hfree, flatMap_breaks, hsplit]
      rw [normalizeChars, hunify, flatMap_breaks, hsplit]

private theorem getLast?_cons_of_some {c d : Char} {cs : List Char} (h : cs.getLast? = some c) :
    (d :: cs).getLast? = some c := by
  rw [List.getLast?_cons, h]
  rfl

theorem Token.read_append {as bs : List Char}
    (h : as.getLast? = some '\r' → bs.head? ≠ some '\n') :
    Token.read (as ++ bs) = Token.read as ++ Token.read bs := by
  fun_induction Token.read as with
  | case1 rest ih =>
    exact congrArg _ (ih fun hlast => h (getLast?_cons_of_some (getLast?_cons_of_some hlast)))
  | case2 rest hlone ih =>
    have hhead : (rest ++ bs).head? ≠ some '\n' := by
      cases rest with
      | nil => exact h rfl
      | cons c rest =>
        intro hc
        cases hc
        exact hlone rest rfl
    rw [List.cons_append, Token.read_cr hhead, ih fun hlast => h (getLast?_cons_of_some hlast)]
    rfl
  | case3 rest ih => exact congrArg _ (ih fun hlast => h (getLast?_cons_of_some hlast))
  | case4 c rest _ hcr hlf ih =>
    rw [List.cons_append, Token.read_other _ hcr hlf,
      ih fun hlast => h (getLast?_cons_of_some hlast)]
    rfl
  | case5 => rfl

/-- Pieces of a text can be looked at one by one if no pair `\r\n` is made where they meet. -/
theorem withBreaks_append {e : LineEnding} {s t : String}
    (h : s.toList.getLast? = some '\r' → t.toList.head? ≠ some '\n') :
    withBreaks e (s ++ t) = withBreaks e s ++ withBreaks e t := by
  rw [withBreaks, String.toList_append, Token.read_append h, List.flatMap_append,
    String.ofList_append, withBreaks, withBreaks]

/-- Names that are the same if they are shown in the same way. -/
def StayApart (e : LineEnding) (names : List String) : Prop :=
  ∀ a ∈ names, ∀ a' ∈ names, withBreaks e a = withBreaks e a' → a = a'

theorem nodup_withBreaks_iff {e : LineEnding} {names : List String} :
    (names.map (withBreaks e)).Nodup ↔ names.Nodup ∧ StayApart e names := by
  constructor
  · intro h
    exact ⟨h.of_map, fun a ha a' ha' => List.inj_on_of_nodup_map h ha ha'⟩
  · rintro ⟨h, hapart⟩
    exact h.map_on fun a ha a' ha' => hapart a ha a' ha'

/-! ## Texts without line breaks -/

/-- Whether a text has no line break. -/
def isUnbroken (s : String) : Bool := s.toList.all fun c => c ≠ '\r' && c ≠ '\n'

/-- Whether a text has no line break and is not empty, so that it keeps others apart. -/
def isSolid (s : String) : Bool := !s.isEmpty && isUnbroken s

theorem isUnbroken_iff {s : String} :
    isUnbroken s = true ↔ ∀ c ∈ s.toList, c ≠ '\r' ∧ c ≠ '\n' := by
  simp [isUnbroken]

private theorem withBreaks_of_unbroken {e : LineEnding} {s : String} (h : isUnbroken s = true) :
    withBreaks e s = s := by
  refine withBreaks_eq_self_iff.mpr ⟨[s.toList], fun l hl => ?_, by simp⟩
  cases List.mem_singleton.mp hl
  have hs := isUnbroken_iff.mp h
  exact ⟨fun hc => (hs _ hc).1 rfl, fun hc => (hs _ hc).2 rfl⟩

private theorem exists_break (e : LineEnding) :
    ∃ c cs, e.chars = c :: cs ∧ (c = '\r' ∨ c = '\n') := by
  cases e with
  | lf => exact ⟨_, _, rfl, .inr rfl⟩
  | cr => exact ⟨_, _, rfl, .inl rfl⟩
  | crlf => exact ⟨_, _, rfl, .inl rfl⟩

/-- No text without line breaks begins with a line break. -/
private theorem prefix_break_iff (e : LineEnding) {as cs : List Char}
    (has : ∀ c ∈ as, c ≠ '\r' ∧ c ≠ '\n') : as <+: e.chars ++ cs ↔ as = [] := by
  obtain ⟨c, rest, hchars, hc⟩ := exists_break e
  rw [hchars]
  cases as with
  | nil => simp
  | cons a as =>
    obtain ⟨hcr, hlf⟩ := has a List.mem_cons_self
    have hne : a ≠ c := by
      rcases hc with rfl | rfl
      · exact hcr
      · exact hlf
    simp [hne]

private theorem prefix_flatMap_read_iff {e : LineEnding} {as cs : List Char}
    (has : ∀ c ∈ as, c ≠ '\r' ∧ c ≠ '\n') :
    as <+: (Token.read cs).flatMap (Token.charsBy e) ↔ as <+: cs := by
  fun_induction Token.read cs generalizing as with
  | case1 rest _ => exact (prefix_break_iff e has).trans (prefix_break_iff .crlf has).symm
  | case2 rest _ _ => exact (prefix_break_iff e has).trans (prefix_break_iff .cr has).symm
  | case3 rest _ => exact (prefix_break_iff e has).trans (prefix_break_iff .lf has).symm
  | case4 c rest _ _ _ ih =>
    cases as with
    | nil => simp
    | cons a as =>
      rw [List.flatMap_cons, Token.charsBy, List.singleton_append, List.cons_prefix_cons,
        List.cons_prefix_cons, ih (List.forall_mem_cons.mp has).2]
  | case5 => rfl

/-- What stands in front of the line breaks stays there. -/
theorem prefix_withBreaks_iff {e : LineEnding} {a s : String} (h : isUnbroken a = true) :
    a.toList <+: (withBreaks e s).toList ↔ a.toList <+: s.toList := by
  rw [withBreaks, String.toList_ofList]
  exact prefix_flatMap_read_iff (isUnbroken_iff.mp h)

private theorem flatMap_read_of_unbroken {e : LineEnding} {cs : List Char}
    (h : ∀ c ∈ (Token.read cs).flatMap (Token.charsBy e), c ≠ '\r' ∧ c ≠ '\n') :
    (Token.read cs).flatMap (Token.charsBy e) = cs := by
  -- the first line break would be in the result
  have hbreak : ∀ rest, ¬ ∀ c ∈ e.chars ++ rest, c ≠ '\r' ∧ c ≠ '\n' := by
    intro rest hall
    obtain ⟨c, _, hchars, hc⟩ := exists_break e
    obtain ⟨hcr, hlf⟩ := hall c (by simp [hchars])
    exact hc.elim hcr hlf
  fun_induction Token.read cs with
  | case1 rest _ => exact absurd h (hbreak _)
  | case2 rest _ _ => exact absurd h (hbreak _)
  | case3 rest _ => exact absurd h (hbreak _)
  | case4 c rest _ _ _ ih =>
    exact congrArg (c :: ·) (ih fun d hd => h d (List.mem_cons_of_mem c hd))
  | case5 => rfl

/-- A text that is shown without line breaks has none. -/
theorem eq_of_withBreaks_unbroken {e : LineEnding} {s t : String} (ht : isUnbroken t = true)
    (h : withBreaks e s = t) : s = t := by
  rw [← h, isUnbroken_iff, withBreaks, String.toList_ofList] at ht
  rw [← h, ← String.toList_inj, withBreaks, String.toList_ofList]
  exact (flatMap_read_of_unbroken ht).symm

section Solid

variable {e : LineEnding} {a s t : String} (h : isSolid a = true)
include h

theorem unbroken_of_solid : isUnbroken a = true := by
  rw [isSolid, Bool.and_eq_true] at h
  exact h.2

private theorem ne_of_solid : a.toList ≠ [] := by
  rw [isSolid, Bool.and_eq_true] at h
  simpa using h.1

private theorem head?_ne_of_solid (s : String) : (a ++ s).toList.head? ≠ some '\n' := by
  intro hhead
  rw [String.toList_append, List.head?_append_of_ne_nil _ (ne_of_solid h)] at hhead
  exact (isUnbroken_iff.mp (unbroken_of_solid h) _ (List.mem_of_head? hhead)).2 rfl

private theorem getLast?_ne_of_solid (s : String) : (s ++ a).toList.getLast? ≠ some '\r' := by
  intro hlast
  rw [String.toList_append, List.getLast?_append_of_ne_nil _ (ne_of_solid h)] at hlast
  exact (isUnbroken_iff.mp (unbroken_of_solid h) _ (List.mem_of_getLast? hlast)).1 rfl

@[simp 100] theorem withBreaks_solid : withBreaks e a = a :=
  withBreaks_of_unbroken (unbroken_of_solid h)

@[simp] theorem withBreaks_solid_append : withBreaks e (a ++ s) = a ++ withBreaks e s := by
  have hlast := getLast?_ne_of_solid h ""
  rw [String.empty_append] at hlast
  rw [withBreaks_append fun hcr => absurd hcr hlast, withBreaks_solid h]

@[simp low] theorem withBreaks_append_solid : withBreaks e (s ++ a) = withBreaks e s ++ a := by
  have hhead := head?_ne_of_solid h ""
  rw [String.append_empty] at hhead
  rw [withBreaks_append fun _ => hhead, withBreaks_solid h]

@[simp high] theorem withBreaks_append_solid_append :
    withBreaks e (s ++ (a ++ t)) = withBreaks e s ++ (a ++ withBreaks e t) := by
  rw [withBreaks_append fun _ => head?_ne_of_solid h t, withBreaks_solid_append h]

end Solid

@[simp] theorem withBreaks_intercalate {e : LineEnding} {separator : String}
    (h : isSolid separator = true) (ss : List String) :
    withBreaks e (separator.intercalate ss) = separator.intercalate (ss.map (withBreaks e)) := by
  induction ss with
  | nil => exact withBreaks_of_unbroken rfl
  | cons s ss ih =>
    cases ss with
    | nil => simp
    | cons t ss =>
      rw [String.intercalate_cons_cons, String.append_assoc, withBreaks_append_solid_append h, ih]
      simp only [List.map_cons, String.intercalate_cons_cons, String.append_assoc]

/-! ## Ends of lines -/

/-- A text at the end of a line. A `\r` at its end belongs to the line break that follows. -/
def ended (e : LineEnding) (s : String) : String :=
  withBreaks e (if s.toList.getLast? = some '\r' then String.ofList s.toList.dropLast else s)

private theorem withBreaks_pair (e : LineEnding) : withBreaks e "\r\n" = e.text := by
  have hread : Token.read "\r\n".toList = [.lineBreak .crlf] := by decide
  rw [withBreaks, hread, List.flatMap_singleton]
  rfl

private theorem withBreaks_lf (e : LineEnding) : withBreaks e "\n" = e.text := by
  have hread : Token.read "\n".toList = [.lineBreak .lf] := by decide
  rw [withBreaks, hread, List.flatMap_singleton]
  rfl

private theorem withBreaks_line (e : LineEnding) (s : String) :
    withBreaks e (s ++ "\n") = ended e s ++ e.text := by
  by_cases hlast : s.toList.getLast? = some '\r'
  · have hs : s ++ "\n" = String.ofList s.toList.dropLast ++ "\r\n" := by
      have hsplit := List.dropLast_append_getLast? _ hlast
      rw [← String.toList_inj, String.toList_append, String.toList_append, String.toList_ofList,
        String.toList_ofList, String.toList_ofList]
      conv_lhs => rw [← hsplit]
      rw [List.append_assoc]
      rfl
    rw [hs, withBreaks_append fun _ => by decide, withBreaks_pair, ended, if_pos hlast]
  · rw [withBreaks_append fun hcr => absurd hcr hlast, withBreaks_lf, ended, if_neg hlast]

private theorem ended_of_empty (e : LineEnding) : ended e "" = "" := withBreaks_of_unbroken rfl

section Solid

variable {e : LineEnding} {a s t : String} (h : isSolid a = true)
include h

@[simp high] theorem ended_append_solid_append :
    ended e (s ++ (a ++ t)) = withBreaks e s ++ (a ++ ended e t) := by
  rw [← String.append_left_inj e.text, ← withBreaks_line]
  simp only [String.append_assoc]
  rw [withBreaks_append_solid_append h, withBreaks_line]

@[simp low] theorem ended_append_solid : ended e (s ++ a) = withBreaks e s ++ a := by
  rw [ended, if_neg (getLast?_ne_of_solid h s), withBreaks_append_solid h]

@[simp] theorem ended_solid_append : ended e (a ++ s) = a ++ ended e s := by
  rw [← String.append_left_inj e.text, ← withBreaks_line]
  simp only [String.append_assoc]
  rw [withBreaks_solid_append h, withBreaks_line]

@[simp 100] theorem ended_solid : ended e a = a := by
  have happend := ended_append_solid (e := e) (s := "") h
  rw [String.empty_append] at happend
  exact happend.trans (String.empty_append)

end Solid

/-! ## Lines -/

/-- A line with the level of its indentation. -/
structure Line where
  level : Nat := 0
  text : String
  deriving DecidableEq, Repr

/-- A line without a text. -/
def Line.empty : Line := { text := "" }

/-- A line of a text that is given one form of line breaks. -/
def Line.ended (e : LineEnding) (l : Line) : Line := { l with text := Text.ended e l.text }

@[simp] theorem Line.ended_mk (e : LineEnding) (n : Nat) (s : String) :
    Line.ended e ⟨n, s⟩ = ⟨n, Text.ended e s⟩ := rfl

@[simp] theorem Line.ended_empty (e : LineEnding) : Line.empty.ended e = .empty := by
  rw [empty, ended_mk, ended_of_empty]

/-- Lines as a text, with `unit` for one level of indentation and `e` after each of them. -/
def page (unit : String) (e : LineEnding) (ls : List Line) : String :=
  String.join (ls.map fun l => String.join (List.replicate l.level unit) ++ l.text ++ e.text)

private theorem page_cons (unit : String) (e : LineEnding) (l : Line) (ls : List Line) :
    page unit e (l :: ls) =
      String.join (List.replicate l.level unit) ++ l.text ++ e.text ++ page unit e ls := by
  rw [page, List.map_cons, String.join_cons, page]

private theorem page_append (unit : String) (e : LineEnding) (ls ls' : List Line) :
    page unit e (ls ++ ls') = page unit e ls ++ page unit e ls' := by
  induction ls with
  | nil => simp [page]
  | cons l ls ih => simp only [List.cons_append, page_cons, ih, String.append_assoc]

private theorem withBreaks_indentation {unit : String} (h : isUnbroken unit = true) (e : LineEnding)
    (level : Nat) (s : String) : withBreaks e (String.join (List.replicate level unit) ++ s) =
      String.join (List.replicate level unit) ++ withBreaks e s := by
  induction level with
  | zero => simp
  | succ level ih =>
    rw [List.replicate_succ, String.join_cons, String.append_assoc]
    by_cases hunit : unit = ""
    · rw [hunit, String.empty_append, String.empty_append]
      rw [hunit] at ih
      exact ih
    · have hsolid : isSolid unit = true := by simp [isSolid, hunit, h]
      rw [withBreaks_solid_append hsolid, ih, String.append_assoc]

/-- Lines are given one form of line breaks one by one. -/
theorem withBreaks_page {unit : String} (h : isUnbroken unit = true) (e : LineEnding)
    (ls : List Line) : withBreaks e (page unit .lf ls) = page unit e (ls.map (·.ended e)) := by
  induction ls with
  | nil => rfl
  | cons l ls ih =>
    have hline : withBreaks e (String.join (List.replicate l.level unit) ++ l.text ++ "\n") =
        String.join (List.replicate l.level unit) ++ Text.ended e l.text ++ e.text := by
      rw [String.append_assoc, withBreaks_indentation h, withBreaks_line, String.append_assoc]
    have hapart : (String.join (List.replicate l.level unit) ++ l.text ++ "\n").toList.getLast? =
        some '\r' → (page unit .lf ls).toList.head? ≠ some '\n' := by
      simp
    rw [List.map_cons, page_cons, page_cons, Line.ended, ← ih, ← hline]
    exact withBreaks_append hapart

/-! ## Lines of steps -/

theorem isBlank_append_visible {s t : String} (h : isBlank t = false) :
    isBlank (s ++ t) = false := by
  rw [isBlank_append, h, Bool.and_false]

theorem isBlank_visible_append {s t : String} (h : isBlank s = false) :
    isBlank (s ++ t) = false := by
  rw [isBlank_append, h, Bool.false_and]

/-- The lines that steps write on a level. Guards that steps issue are dropped in the opposite
order, each by the steps between which it is held. -/
inductive Prints : Nat → List Step → List Line → Prop
  | nil {n : Nat} : Prints n [] []
  | line {n : Nat} {s : String} {rest : List Step} {ls : List Line} :
      isBlank s = false → Prints n rest ls → Prints n (.line s :: rest) (⟨n, s⟩ :: ls)
  | blank {n : Nat} {rest : List Step} {ls : List Line} :
      Prints n rest ls → Prints n (.blank :: rest) (.empty :: ls)
  | indented {n : Nat} {body rest : List Step} {inner ls : List Line} :
      Prints (n + 1) body inner → Prints n rest ls →
        Prints n (.indent :: (body ++ .dedent :: rest)) (inner ++ ls)
  | block {n : Nat} {header : String} {body rest : List Step} {inner ls : List Line} :
      Prints (n + 1) body inner → Prints n rest ls →
        Prints n (.block header body :: rest)
          (⟨n, header ++ " \x7b"⟩ :: (inner ++ ⟨n, "\x7d"⟩ :: ls))

namespace Prints

variable {n : Nat} {first second : List Step} {ls ls' : List Line} {α : Type}

theorem congr (h : Prints n first ls) (heq : ls = ls') : Prints n first ls' := heq ▸ h

theorem append (h : Prints n first ls) (h' : Prints n second ls') :
    Prints n (first ++ second) (ls ++ ls') := by
  induction h with
  | nil => exact h'
  | line hs _ ih => exact .line hs (ih h')
  | blank _ ih => exact .blank (ih h')
  | indented hbody _ _ ih =>
    rw [List.cons_append, List.append_assoc, List.cons_append, List.append_assoc]
    exact .indented hbody (ih h')
  | block hbody _ _ ih =>
    rw [List.cons_append, List.cons_append, List.append_assoc, List.cons_append]
    exact .block hbody (ih h')

theorem flatMap {f : α → List Step} {lines : α → List Line} (h : ∀ a, Prints n (f a) (lines a))
    (as : List α) : Prints n (as.flatMap f) (as.flatMap lines) := by
  induction as with
  | nil => exact .nil
  | cons a as ih => exact (h a).append ih

theorem lines {ss : List String} (h : ∀ s ∈ ss, isBlank s = false) :
    Prints n (ss.map .line) (ss.map (Line.mk n)) := by
  induction ss with
  | nil => exact .nil
  | cons s ss ih =>
    obtain ⟨hs, hss⟩ := List.forall_mem_cons.mp h
    exact .line hs (ih hss)

theorem map_line {f : α → String} (h : ∀ a, isBlank (f a) = false) (as : List α) :
    Prints n (as.map fun a => .line (f a)) (as.map fun a => ⟨n, f a⟩) := by
  have hall : ∀ s ∈ as.map f, isBlank s = false := by simpa using fun a _ => h a
  simpa [Function.comp_def] using lines hall

end Prints

namespace Writer

/-- A line that is not blank, at the start of a line. -/
private theorem writeLine_of_visible {w : Writer} {s : String} (hfresh : w.atLineStart = true)
    (hs : isBlank s = false) :
    w.writeLine s = { w with text := w.text ++ page w.unit .lf [⟨w.level, s⟩] } := by
  have hindentation : w.indentation = String.join (List.replicate w.level w.unit) := rfl
  simp [writeLine, write, breakLine, hfresh, hs, hindentation, page, LineEnding.text,
    LineEnding.chars, String.append_assoc]

private theorem breakLine_of_fresh {w : Writer} (hfresh : w.atLineStart = true) :
    w.breakLine = { w with text := w.text ++ page w.unit .lf [.empty] } := by
  simp [breakLine, hfresh, page, Line.empty, LineEnding.text, LineEnding.chars]

end Writer

/-- A session after another one in which some lines were written and the guards given back. -/
private structure Wrote (x : Session) (ls : List Line) (y : Session) : Prop where
  writer : y.writer = { x.writer with text := x.writer.text ++ page x.writer.unit .lf ls }
  held : y.guards.held = x.guards.held

namespace Wrote

variable {x y z : Session} {ls ls' : List Line}

private theorem trans (h : Wrote x ls y) (h' : Wrote y ls' z) : Wrote x (ls ++ ls') z := by
  refine ⟨?_, h'.held.trans h.held⟩
  rw [h'.writer, h.writer, page_append, String.append_assoc]

private theorem fresh (h : Wrote x ls y) (hfresh : x.writer.atLineStart = true) :
    y.writer.atLineStart = true := by
  rw [h.writer]
  exact hfresh

private theorem level (h : Wrote x ls y) : y.writer.level = x.writer.level := by
  rw [h.writer]

private theorem line (hfresh : x.writer.atLineStart = true) {s : String}
    (hs : isBlank s = false) :
    Wrote x [⟨x.writer.level, s⟩] { x with writer := x.writer.writeLine s } :=
  ⟨Writer.writeLine_of_visible hfresh hs, rfl⟩

/-- What is written between a guard and its drop. -/
private theorem between (h : Wrote { writer := x.writer.indent, guards := x.guards.hold } ls y) :
    Wrote x ls (Step.run .dedent y) := by
  have hheld : y.guards.held = x.guards.issued :: x.guards.held := h.held
  have hmem : x.guards.issued ∈ y.guards.held := hheld ▸ List.mem_cons_self
  rw [Step.run, hheld]
  dsimp only
  rw [Session.drop, if_pos hmem]
  refine ⟨?_, ?_⟩
  · rw [h.writer]
    rfl
  · rw [Guards.drop, hheld, List.erase_cons_head]

/-- What is written in a block. -/
private theorem inside {header : String} (hfresh : x.writer.atLineStart = true)
    (h : Wrote (x.openBlock header) ls y) :
    Wrote x (⟨x.writer.level, header ++ " \x7b"⟩ :: (ls ++ [⟨x.writer.level, "\x7d"⟩]))
      y.closeBlock := by
  have hopen := line hfresh (s := header ++ " \x7b") (isBlank_append_visible (by decide))
  have hbody : Wrote { x with writer := x.writer.writeLine (header ++ " \x7b") } ls
      { y with writer := y.writer.dedent } := by
    refine ⟨?_, h.held⟩
    rw [h.writer]
    rfl
  have hboth := hopen.trans hbody
  have hclose := line (hboth.fresh hfresh) (s := "\x7d") (by decide)
  rw [hboth.level] at hclose
  exact hboth.trans hclose

end Wrote

private theorem Prints.wrote {n : Nat} {steps : List Step} {ls : List Line} (h : Prints n steps ls)
    {x : Session} (hfresh : x.writer.atLineStart = true) (hlevel : x.writer.level = n) :
    Wrote x ls (Step.runAll steps x) := by
  induction h generalizing x with
  | nil => exact ⟨by simp [Step.runAll, page], by rw [Step.runAll]⟩
  | line hs _ ih =>
    subst hlevel
    have hstep := Wrote.line hfresh hs
    rw [Step.runAll, Step.run]
    exact hstep.trans (ih (hstep.fresh hfresh) hstep.level)
  | blank _ ih =>
    have hstep : Wrote x [.empty] { x with writer := x.writer.breakLine } :=
      ⟨Writer.breakLine_of_fresh hfresh, rfl⟩
    rw [Step.runAll, Step.run]
    exact hstep.trans (ih (hstep.fresh hfresh) (hstep.level.trans hlevel))
  | @indented n body rest inner ls _ _ ihbody ihrest =>
    have hstep := (ihbody (x := { writer := x.writer.indent, guards := x.guards.hold }) hfresh
      (congrArg (· + 1) hlevel)).between
    rw [Step.runAll, Step.runAll_append, Step.runAll, Step.run]
    exact hstep.trans (ihrest (hstep.fresh hfresh) (hstep.level.trans hlevel))
  | @block n header body rest inner ls _ _ ihbody ihrest =>
    subst hlevel
    have hopen : (x.openBlock header).writer.atLineStart = true := rfl
    have hlevel : (x.openBlock header).writer.level = x.writer.level + 1 :=
      congrArg (· + 1) (Writer.writeLine_level _ _)
    have hstep := Wrote.inside hfresh (ihbody hopen hlevel)
    rw [Step.runAll, Step.run]
    have h := hstep.trans (ihrest (hstep.fresh hfresh) hstep.level)
    simpa using h

/-- The text of a layout is made of its lines. -/
theorem Prints.normalizeBreaks_layout {steps : List Step} {ls : List Line} (h : Prints 0 steps ls)
    {unit : String} (hunit : isUnbroken unit = true) (e : LineEnding) :
    normalizeBreaks e (layout unit steps) = page unit e (ls.map (·.ended e)) := by
  have hlayout : layout unit steps = page unit .lf ls := by
    rw [layout, (h.wrote (x := Session.start unit) rfl rfl).writer]
    exact String.empty_append
  rw [hlayout, normalizeBreaks_eq, withBreaks_page hunit]

end HubBindings.Text
