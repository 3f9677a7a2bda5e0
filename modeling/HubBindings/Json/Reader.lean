import HubBindings.Json.Token

/-!
Reading JSON. The reader is a stack machine over tokens: it keeps the containers that are still
open and what may come next, so the depth of a text costs no recursion.
-/

namespace HubBindings.Json

/-- A container that is still open. Its content comes last first. -/
inductive Frame where
  | array (items : List Json)
  /-- An object, the key whose value is awaited, and whether all keys so far denote texts. -/
  | object (members : List (String × Json)) (key : String) (readable : Bool)

/-- What may come next. -/
inductive Expectation where
  | value
  /-- A value, or the end of an array that has no items yet. -/
  | firstItem
  | key
  /-- A key, or the end of an object that has no members yet. -/
  | firstKey
  | colon
  /-- A comma or the end of the innermost container. -/
  | separator
  /-- Nothing: the text holds this value. -/
  | finished (j : Json)

/-- The state of a reader between two tokens. -/
structure Reader where
  frames : List Frame := []
  expect : Expectation := .value

/-- How many containers may be nested in each other. -/
def nestingLimit : Nat := 127

namespace Reader

/-- A value is complete: it goes into the innermost open container. -/
def complete (j : Json) : List Frame → Reader
  | [] => { frames := [], expect := .finished j }
  | .array items :: outer => { frames := .array (j :: items) :: outer, expect := .separator }
  | .object members key readable :: outer =>
    { frames := .object ((key, j) :: members) key readable :: outer, expect := .separator }

/-- Closes the innermost container as the value `j`, unless it is nested too deeply. -/
def close (j : Json) (outer : List Frame) : Reader :=
  complete (if outer.length < nestingLimit then j else .unreadable) outer

/-- The value of an object from its members, last first. -/
def objectOf (members : List (String × Json)) (readable : Bool) : Json :=
  if readable then .object members.reverse else .unreadable

/-- Takes one token where a value may start. -/
def takeValue (frames : List Frame) : Token → Option Reader
  | .scalar j => some (complete j frames)
  | .text (some s) => some (complete (.string s) frames)
  | .text none => some (complete .unreadable frames)
  | .openArray => some { frames := .array [] :: frames, expect := .firstItem }
  | .openObject => some { frames := .object [] "" true :: frames, expect := .firstKey }
  | _ => none

/-- Takes one token where a key may stand. -/
def takeKey (frames : List Frame) (t : Token) : Option Reader :=
  match t, frames with
  | .text (some s), .object members _ readable :: outer =>
    some { frames := .object members s readable :: outer, expect := .colon }
  | .text none, .object members key _ :: outer =>
    some { frames := .object members key false :: outer, expect := .colon }
  | _, _ => none

/-- Takes one token. -/
def take (r : Reader) (t : Token) : Option Reader :=
  match r.expect, t, r.frames with
  | .value, t, frames => takeValue frames t
  | .firstItem, .closeArray, .array items :: outer => some (close (.array items.reverse) outer)
  | .firstItem, t, frames => takeValue frames t
  | .key, t, frames => takeKey frames t
  | .firstKey, .closeObject, .object members _ readable :: outer =>
    some (close (objectOf members readable) outer)
  | .firstKey, t, frames => takeKey frames t
  | .colon, .colon, frames => some { frames := frames, expect := .value }
  | .separator, .comma, .array items :: outer =>
    some { frames := .array items :: outer, expect := .value }
  | .separator, .comma, .object members key readable :: outer =>
    some { frames := .object members key readable :: outer, expect := .key }
  | .separator, .closeArray, .array items :: outer => some (close (.array items.reverse) outer)
  | .separator, .closeObject, .object members _ readable :: outer =>
    some (close (objectOf members readable) outer)
  | _, _, _ => none

/-- The value that was read, once the text is at its end. -/
def result? (r : Reader) : Option Json :=
  match r.expect with
  | .finished j => some j
  | _ => none

end Reader

/-- Reads a JSON text that holds one value, with white space around it at most. -/
def parse? (s : String) : Option Json :=
  match tokens? s with
  | none => none
  | some tokens =>
    match tokens.foldlM Reader.take {} with
    | none => none
    | some r => r.result?

end HubBindings.Json
