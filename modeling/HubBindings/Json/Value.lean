/-!
JSON values. Objects keep their members as written, in order and with repetitions, because a reader
of a record has to notice a repeated field.
-/

namespace HubBindings

/-- A JSON value. -/
inductive Json where
  | null
  | bool (b : Bool)
  /-- An integer literal without sign, fraction and exponent. -/
  | natural (n : Nat)
  /-- Every other number literal, as written. -/
  | number (literal : String)
  | string (s : String)
  | array (items : List Json)
  | object (members : List (String × Json))
  /-- A well-formed value that has no meaning here: a text with half of a surrogate pair, an
  object with such a key, a number beyond the range of a double, or a container nested too
  deeply. It may stand where nobody looks. -/
  | unreadable

namespace Json

mutual

/-- Whether a value can be read in full. -/
def isReadable : Json → Bool
  | .unreadable => false
  | .array items => allReadable items
  | .object members => allReadableMembers members
  | _ => true

/-- Whether every item can be read in full. -/
def allReadable : List Json → Bool
  | [] => true
  | j :: rest => isReadable j && allReadable rest

/-- Whether every member can be read in full. -/
def allReadableMembers : List (String × Json) → Bool
  | [] => true
  | (_, j) :: rest => isReadable j && allReadableMembers rest

end

/-- The values that an object's members have under `key`, in order. -/
def valuesUnder (key : String) (members : List (String × Json)) : List Json :=
  (members.filter fun m => m.1 == key).map (·.2)

end Json

end HubBindings
