import HubBindings.Json.Value

/-!
Writing JSON in its compact form.
-/

namespace HubBindings.Json

/-- The digits of a number below 16, in lower case. -/
def hexDigit (n : Nat) : Char := Nat.digitChar n

/-- A character inside a string literal: quotes, backslashes and control characters are escaped. -/
def escape (c : Char) : List Char :=
  if c = '"' then ['\\', '"']
  else if c = '\\' then ['\\', '\\']
  else if c.toNat < 0x20 then
    ['\\', 'u', '0', '0', hexDigit (c.toNat / 16), hexDigit (c.toNat % 16)]
  else [c]

/-- Appends a string literal to a text. -/
def appendLiteral (out : String) (s : String) : String :=
  (s.toList.foldl (fun acc c => (escape c).foldl String.push acc) (out.push '"')).push '"'

mutual

/-- Appends a value to a text. What cannot be read is written as `null`. -/
def appendTo (out : String) : Json → String
  | .null => out ++ "null"
  | .bool true => out ++ "true"
  | .bool false => out ++ "false"
  | .natural n => out ++ toString n
  | .number literal => out ++ literal
  | .string s => appendLiteral out s
  | .array items => (appendItems (out.push '[') true items).push ']'
  | .object members => (appendMembers (out.push '{') true members).push '}'
  | .unreadable => out ++ "null"

/-- Appends items, with a comma in front of each but the first. -/
def appendItems (out : String) (first : Bool) : List Json → String
  | [] => out
  | j :: rest => appendItems (appendTo (if first then out else out.push ',') j) false rest

/-- Appends members, with a comma in front of each but the first. -/
def appendMembers (out : String) (first : Bool) : List (String × Json) → String
  | [] => out
  | (key, j) :: rest =>
    let out := (appendLiteral (if first then out else out.push ',') key).push ':'
    appendMembers (appendTo out j) false rest

end

/-- The compact text of a value. -/
def render (j : Json) : String := appendTo "" j

end HubBindings.Json
