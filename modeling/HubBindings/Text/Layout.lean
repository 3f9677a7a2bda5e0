import HubBindings.Text.LineEnding
import HubBindings.Text.WhiteSpace

/-!
Indented text. A `Writer` collects text and puts the indentation in front of the first text of a
line that is not blank; line breaks inside a written text do not start a line. `Step` describes a
piece of layout as data, so that a file is a list of steps before it is a text. Indentation is
raised until a guard is dropped, and guards may be dropped in any order.
-/

namespace HubBindings.Text

/-- Text under construction. -/
structure Writer where
  /-- The text of one indentation level. -/
  unit : String
  text : String := ""
  level : Nat := 0
  atLineStart : Bool := true
  deriving DecidableEq, Repr

namespace Writer

/-- The indentation of the current level: so many copies of the unit. -/
def indentation (w : Writer) : String :=
  (List.replicate w.level w.unit).foldl (· ++ ·) ""

/-- Appends text. The first text of a line that is not blank is indented. -/
def write (w : Writer) (s : String) : Writer :=
  if w.atLineStart && !isBlank s then
    { w with text := w.text ++ w.indentation ++ s, atLineStart := false }
  else
    { w with text := w.text ++ s }

/-- Ends the current line. -/
def breakLine (w : Writer) : Writer :=
  { w with text := w.text ++ "\n", atLineStart := true }

/-- Appends text and ends the line. -/
def writeLine (w : Writer) (s : String) : Writer := (w.write s).breakLine

/-- Raises the indentation by one level. -/
def indent (w : Writer) : Writer := { w with level := w.level + 1 }

/-- Lowers the indentation by one level. -/
def dedent (w : Writer) : Writer := { w with level := w.level - 1 }

end Writer

/-- One piece of layout. -/
inductive Step where
  | write (text : String)
  | line (text : String)
  | blank
  /-- Raises the indentation until the guard that it issues is dropped. -/
  | indent
  /-- Drops the latest guard that is held, if any. -/
  | dedent
  /-- Drops a guard that is held, be it the latest or not. -/
  | drop (guard : Nat)
  /-- A line that opens a brace, an indented body, a line that closes the brace. -/
  | block (header : String) (body : List Step)

/-- The guards of raised indentation. They are numbered in the order in which they are issued. -/
structure Guards where
  issued : Nat := 0
  /-- The guards that steps can drop, the latest first. A block keeps its own guard to itself. -/
  held : List Nat := []
  deriving DecidableEq, Repr

namespace Guards

/-- The guards after one more is issued and held. -/
def hold (k : Guards) : Guards := { issued := k.issued + 1, held := k.issued :: k.held }

/-- The guards after one more is issued that no step can drop. -/
def keep (k : Guards) : Guards := { k with issued := k.issued + 1 }

/-- The guards after one that is held is dropped. -/
def drop (k : Guards) (guard : Nat) : Guards := { k with held := k.held.erase guard }

end Guards

/-- A writer together with the guards of its indentation. -/
structure Session where
  writer : Writer
  guards : Guards := {}

namespace Session

/-- A session that has written nothing, with `unit` for one indentation level. -/
def start (unit : String) : Session := { writer := { unit := unit } }

/-- Drops a guard. Nothing happens if it is not held. -/
def drop (x : Session) (guard : Nat) : Session :=
  if guard ∈ x.guards.held then { writer := x.writer.dedent, guards := x.guards.drop guard } else x

/-- Writes the line in front of a block and issues the guard of the block. -/
def openBlock (x : Session) (header : String) : Session :=
  { writer := (x.writer.writeLine (header ++ " \x7b")).indent, guards := x.guards.keep }

/-- Drops the guard of a block and writes the line after it. -/
def closeBlock (x : Session) : Session :=
  { x with writer := x.writer.dedent.writeLine "\x7d" }

end Session

mutual

/-- Carries out one step. -/
def Step.run : Step → Session → Session
  | .write s, x => { x with writer := x.writer.write s }
  | .line s, x => { x with writer := x.writer.writeLine s }
  | .blank, x => { x with writer := x.writer.breakLine }
  | .indent, x => { writer := x.writer.indent, guards := x.guards.hold }
  | .dedent, x =>
    match x.guards.held with
    | [] => x
    | guard :: _ => x.drop guard
  | .drop guard, x => x.drop guard
  | .block header body, x => (Step.runAll body (x.openBlock header)).closeBlock

/-- Carries out steps in order. -/
def Step.runAll : List Step → Session → Session
  | [], x => x
  | s :: rest, x => Step.runAll rest (Step.run s x)

end

theorem Step.runAll_append (first second : List Step) (x : Session) :
    Step.runAll (first ++ second) x = Step.runAll second (Step.runAll first x) := by
  induction first generalizing x with
  | nil => simp [Step.runAll]
  | cons s rest ih => simp [Step.runAll, ih]

/-- The text of a list of steps, with `\n` line breaks. -/
def layout (unit : String) (steps : List Step) : String :=
  (Step.runAll steps (Session.start unit)).writer.text

end HubBindings.Text
