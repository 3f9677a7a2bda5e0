/-!
Diagnostics: what a run reports about interfaces and methods that it had to leave out.
-/

namespace HubBindings

/-- Why something was left out. -/
inductive DiagnosticKind where
  | unsupportedType
  | shapeViolation
  | genericMisuse
  | nameCollision
  deriving DecidableEq, Repr

/-- The stable code of a kind. -/
def DiagnosticKind.code : DiagnosticKind → String
  | unsupportedType => "HG001"
  | shapeViolation => "HG002"
  | genericMisuse => "HG003"
  | nameCollision => "HG004"

/-- A report about one interface, and about one of its methods or parameters if given. -/
structure Diagnostic where
  kind : DiagnosticKind
  /-- Qualified name of the interface. -/
  subject : String
  /-- Declared name of the method. -/
  method : Option String := none
  parameter : Option String := none
  message : String
  deriving DecidableEq, Repr

/-- A diagnostic as one line of text. -/
def Diagnostic.text (d : Diagnostic) : String :=
  d.kind.code ++ " " ++ d.subject
    ++ (match d.method with | some m => "." ++ m | none => "")
    ++ (match d.parameter with | some p => "(" ++ p ++ ")" | none => "")
    ++ ": " ++ d.message

end HubBindings
