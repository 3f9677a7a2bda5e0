import HubBindings.Proofs.Text.LineEnding
import HubBindings.Text.Layout

/-!
Layouts in different widths. If every text that is written ends its line, the width of the
indentation has no influence on the layout but for the spaces in front of the lines
(`bareLines_layout`).

A text that is left open would not do: white space that is written at the start of a line is not
indented, and what is written after it is.
-/

namespace HubBindings.Text

/-! ## Lines without indentation -/

/-- The lines of a text without the spaces in front of them. -/
def bareLines (cs : List Char) : List (List Char) :=
  (lines cs).map fun l => l.dropWhile (· = ' ')

private theorem bareLines_space (cs : List Char) : bareLines (' ' :: cs) = bareLines cs := by
  have hunify : unifyBreaks (' ' :: cs) = ' ' :: unifyBreaks cs :=
    unifyBreaks_cons fun h => absurd h (by decide)
  unfold bareLines lines
  rw [hunify, List.splitOn_cons_eq_if_modifyHead, if_neg (by decide)]
  cases (unifyBreaks cs).splitOn '\n' with
  | nil => rfl
  | cons first rest => simp

private theorem bareLines_spaces (n : Nat) (cs : List Char) :
    bareLines (List.replicate n ' ' ++ cs) = bareLines cs := by
  induction n with
  | zero => rfl
  | succ n ih => rw [List.replicate_succ, List.cons_append, bareLines_space, ih]

/-- Two texts that end with a line break, or are empty, and have the same lines but for spaces in
front of them. -/
def SameLines (as as' : List Char) : Prop :=
  ∃ ls, ∀ bs, bareLines (as ++ bs) = ls ++ bareLines bs ∧ bareLines (as' ++ bs) = ls ++ bareLines bs

theorem SameLines.nil : SameLines [] [] := ⟨[], fun _ => ⟨rfl, rfl⟩⟩

theorem SameLines.bareLines_eq {as as' : List Char} (h : SameLines as as') :
    bareLines as' = bareLines as := by
  obtain ⟨ls, hls⟩ := h
  obtain ⟨h₁, h₂⟩ := hls []
  rw [List.append_nil] at h₁ h₂
  rw [h₁, h₂]

theorem SameLines.append_line {as as' : List Char} (h : SameLines as as') (n n' : Nat)
    (s : List Char) :
    SameLines (as ++ (List.replicate n ' ' ++ (s ++ ['\n'])))
      (as' ++ (List.replicate n' ' ' ++ (s ++ ['\n']))) := by
  obtain ⟨ls, hls⟩ := h
  obtain ⟨new, hnew⟩ := lines_line s
  have hline : ∀ n bs, bareLines (List.replicate n ' ' ++ (s ++ ['\n']) ++ bs) =
      (new.map fun l => l.dropWhile (· = ' ')) ++ bareLines bs := fun n bs => by
    rw [List.append_assoc, bareLines_spaces, List.append_assoc, List.singleton_append, bareLines,
      hnew, List.map_append, bareLines]
  refine ⟨ls ++ new.map fun l => l.dropWhile (· = ' '), fun bs => ?_⟩
  rw [List.append_assoc, (hls _).1, hline, List.append_assoc, List.append_assoc, (hls _).2, hline]
  exact ⟨rfl, rfl⟩

/-! ## Writers -/

/-- The text of so many spaces. -/
def spaces (n : Nat) : String := String.ofList (List.replicate n ' ')

/-- Two writers at the start of a line, on the same level, with indentation of different widths. -/
structure Writer.Alike (w w' : Writer) : Prop where
  level : w'.level = w.level
  fresh : w.atLineStart = true ∧ w'.atLineStart = true
  width : ∃ n n', w.unit = spaces n ∧ w'.unit = spaces n'
  text : SameLines w.text.toList w'.text.toList

namespace Writer

private theorem indentation_toList {w : Writer} {n : Nat} (h : w.unit = spaces n) :
    ∃ k, w.indentation.toList = List.replicate k ' ' := by
  have hfold : ∀ (level : Nat) (s : String), ∃ k,
      ((List.replicate level w.unit).foldl (· ++ ·) s).toList =
        s.toList ++ List.replicate k ' ' := by
    intro level
    induction level with
    | zero => exact fun s => ⟨0, by simp⟩
    | succ level ih =>
      intro s
      obtain ⟨k, hk⟩ := ih (s ++ w.unit)
      refine ⟨n + k, ?_⟩
      rw [List.replicate_succ, List.foldl_cons, hk, h, spaces]
      simp [List.replicate_append_replicate, List.append_assoc]
  obtain ⟨k, hk⟩ := hfold w.level ""
  exact ⟨k, by simpa [indentation] using hk⟩

/-- A line that is written at the start of a line: spaces, the text, and a line break. -/
theorem writeLine_toList {w : Writer} {n : Nat} (hfresh : w.atLineStart = true)
    (h : w.unit = spaces n) (s : String) :
    ∃ k, (w.writeLine s).text.toList =
      w.text.toList ++ (List.replicate k ' ' ++ (s.toList ++ ['\n'])) := by
  obtain ⟨k, hk⟩ := indentation_toList h
  by_cases hblank : isBlank s = true
  · exact ⟨0, by simp [writeLine, write, breakLine, hblank]⟩
  · exact ⟨k, by simp [writeLine, write, breakLine, hfresh, hblank, hk]⟩

theorem writeLine_level (w : Writer) (s : String) : (w.writeLine s).level = w.level := by
  unfold writeLine write breakLine
  split <;> rfl

private theorem writeLine_unit (w : Writer) (s : String) : (w.writeLine s).unit = w.unit := by
  unfold writeLine write breakLine
  split <;> rfl

variable {w w' : Writer}

theorem Alike.writeLine (h : Alike w w') (s : String) : Alike (w.writeLine s) (w'.writeLine s) := by
  obtain ⟨n, n', hn, hn'⟩ := h.width
  obtain ⟨k, hk⟩ := writeLine_toList h.fresh.1 hn s
  obtain ⟨k', hk'⟩ := writeLine_toList h.fresh.2 hn' s
  refine ⟨?_, ⟨rfl, rfl⟩, ⟨n, n', ?_, ?_⟩, ?_⟩
  · rw [writeLine_level, writeLine_level, h.level]
  · rw [writeLine_unit, hn]
  · rw [writeLine_unit, hn']
  · rw [hk, hk']
    exact h.text.append_line k k' s.toList

theorem Alike.breakLine (h : Alike w w') : Alike w.breakLine w'.breakLine := by
  refine ⟨h.level, ⟨rfl, rfl⟩, h.width, ?_⟩
  simpa [Writer.breakLine] using h.text.append_line 0 0 []

theorem Alike.indent (h : Alike w w') : Alike w.indent w'.indent :=
  { h with level := congrArg (· + 1) h.level }

theorem Alike.dedent (h : Alike w w') : Alike w.dedent w'.dedent :=
  { h with level := congrArg (· - 1) h.level }

end Writer

/-! ## Steps -/

mutual

/-- Whether a step leaves no line open. -/
def Step.endsLines : Step → Bool
  | .write _ => false
  | .line _ => true
  | .blank => true
  | .indent => true
  | .dedent => true
  | .drop _ => true
  | .block _ body => Step.allEndLines body

/-- Whether steps leave no line open. -/
def Step.allEndLines : List Step → Bool
  | [] => true
  | s :: rest => s.endsLines && Step.allEndLines rest

end

section endLines

variable {α : Type}

@[simp] theorem Step.endsLines_line (s : String) : (Step.line s).endsLines = true := by
  rw [Step.endsLines]

@[simp] theorem Step.endsLines_blank : Step.blank.endsLines = true := by rw [Step.endsLines]

@[simp] theorem Step.endsLines_indent : Step.indent.endsLines = true := by rw [Step.endsLines]

@[simp] theorem Step.endsLines_dedent : Step.dedent.endsLines = true := by rw [Step.endsLines]

@[simp] theorem Step.endsLines_block (header : String) (body : List Step) :
    (Step.block header body).endsLines = Step.allEndLines body := by
  rw [Step.endsLines]

@[simp] theorem Step.allEndLines_append (first second : List Step) :
    Step.allEndLines (first ++ second) = (Step.allEndLines first && Step.allEndLines second) := by
  induction first with
  | nil => rfl
  | cons s rest ih => rw [List.cons_append, Step.allEndLines, Step.allEndLines, ih, Bool.and_assoc]

@[simp] theorem Step.allEndLines_map {f : α → Step} (h : ∀ a, (f a).endsLines = true)
    (as : List α) : Step.allEndLines (as.map f) = true := by
  induction as with
  | nil => rfl
  | cons a as ih => rw [List.map_cons, Step.allEndLines, h, ih, Bool.and_self]

@[simp] theorem Step.allEndLines_flatMap {f : α → List Step}
    (h : ∀ a, Step.allEndLines (f a) = true) (as : List α) :
    Step.allEndLines (as.flatMap f) = true := by
  induction as with
  | nil => rfl
  | cons a as ih => rw [List.flatMap_cons, Step.allEndLines_append, h, ih, Bool.and_self]

end endLines

/-- Two sessions with writers that are alike and the same guards. -/
structure Session.Alike (x x' : Session) : Prop where
  writer : x.writer.Alike x'.writer
  guards : x'.guards = x.guards

theorem Session.Alike.drop {x x' : Session} (h : x.Alike x') (guard : Nat) :
    (x.drop guard).Alike (x'.drop guard) := by
  rw [Session.drop, Session.drop, h.guards]
  split
  · exact ⟨h.writer.dedent, rfl⟩
  · exact h

mutual

/-- What one step keeps. -/
theorem Step.run_alike : (s : Step) → s.endsLines = true → ∀ {x x' : Session}, x.Alike x' →
    (s.run x).Alike (s.run x')
  | .line s, _, _, _, h => by
    rw [Step.run, Step.run]
    exact ⟨h.writer.writeLine s, h.guards⟩
  | .blank, _, _, _, h => by
    rw [Step.run, Step.run]
    exact ⟨h.writer.breakLine, h.guards⟩
  | .indent, _, _, _, h => by
    rw [Step.run, Step.run]
    exact ⟨h.writer.indent, congrArg Guards.hold h.guards⟩
  | .dedent, _, x, x', h => by
    rw [Step.run, Step.run, h.guards]
    cases x.guards.held with
    | nil => exact h
    | cons guard _ => exact h.drop guard
  | .drop guard, _, _, _, h => by
    rw [Step.run, Step.run]
    exact h.drop guard
  | .block header body, hbody, x, x', h => by
    rw [Step.endsLines] at hbody
    rw [Step.run, Step.run]
    have hstart : (x.openBlock header).Alike (x'.openBlock header) :=
      ⟨(h.writer.writeLine _).indent, congrArg Guards.keep h.guards⟩
    have hinner := Step.runAll_alike body hbody hstart
    exact ⟨hinner.writer.dedent.writeLine _, hinner.guards⟩

/-- What a list of steps keeps. -/
theorem Step.runAll_alike : (steps : List Step) → Step.allEndLines steps = true →
    ∀ {x x' : Session}, x.Alike x' → (Step.runAll steps x).Alike (Step.runAll steps x')
  | [], _, _, _, h => by
    rw [Step.runAll, Step.runAll]
    exact h
  | s :: rest, hall, _, _, h => by
    rw [Step.allEndLines, Bool.and_eq_true] at hall
    rw [Step.runAll, Step.runAll]
    exact Step.runAll_alike rest hall.2 (s.run_alike hall.1 h)

end

theorem Session.start_alike (n n' : Nat) :
    (Session.start (spaces n)).Alike (Session.start (spaces n')) :=
  ⟨⟨rfl, ⟨rfl, rfl⟩, ⟨n, n', rfl, rfl⟩, .nil⟩, rfl⟩

/-- The width of the indentation shows only in the spaces in front of the lines. -/
theorem bareLines_layout {steps : List Step} (h : Step.allEndLines steps = true) (n n' : Nat) :
    bareLines (layout (spaces n') steps).toList = bareLines (layout (spaces n) steps).toList :=
  (Step.runAll_alike steps h (Session.start_alike n n')).writer.text.bareLines_eq

end HubBindings.Text
