/-!
Line endings. A text may mix `\r\n`, `\r` and `\n`; normalising gives every line break one chosen
form.
-/

namespace HubBindings.Text

/-- The sequence that ends a line. -/
inductive LineEnding where
  | lf
  | cr
  | crlf
  deriving DecidableEq, Repr

namespace LineEnding

/-- The characters of a line ending. -/
def chars : LineEnding → List Char
  | lf => ['\n']
  | cr => ['\r']
  | crlf => ['\r', '\n']

/-- A line ending as text. -/
def text (e : LineEnding) : String := String.ofList e.chars

/-- The line ending with a given configuration name. -/
def ofName? : String → Option LineEnding
  | "lf" => some lf
  | "cr" => some cr
  | "crlf" => some crlf
  | _ => none

/-- The configuration name of a line ending. -/
def name : LineEnding → String
  | lf => "lf"
  | cr => "cr"
  | crlf => "crlf"

theorem ofName?_name (e : LineEnding) : ofName? e.name = some e := by
  cases e <;> rfl

end LineEnding

/-- Turns each pair `\r\n` into `\n`. -/
def joinPairs : List Char → List Char
  | '\r' :: '\n' :: rest => '\n' :: joinPairs rest
  | c :: rest => c :: joinPairs rest
  | [] => []

/-- Gives every line break the form `\n`. -/
def unifyBreaks (cs : List Char) : List Char :=
  (joinPairs cs).map fun c => if c = '\r' then '\n' else c

/-- Gives every line break of a character sequence the form `e`. -/
def normalizeChars (e : LineEnding) (cs : List Char) : List Char :=
  (unifyBreaks cs).flatMap fun c => if c = '\n' then e.chars else [c]

/-- Gives every line break of a text the form `e`. -/
def normalizeBreaks (e : LineEnding) (s : String) : String :=
  String.ofList (normalizeChars e s.toList)

end HubBindings.Text
