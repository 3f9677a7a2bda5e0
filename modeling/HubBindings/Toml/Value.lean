import HubBindings.Toml.DateTime

/-!
TOML values. Floats are kept as written: nothing here computes with them.
-/

namespace HubBindings

/-- A TOML value. The keys of a table are distinct. -/
inductive Toml where
  | string (s : String)
  | integer (n : Int)
  | float (literal : String)
  | boolean (b : Bool)
  | dateTime (d : Toml.DateTime)
  | array (items : List Toml)
  | table (entries : List (String × Toml))
  /-- A number without a value: one beyond the range of numbers, a radix without digits, or an
  integer with other characters in its groups. It may stand where nobody looks. -/
  | unreadable

namespace Toml

mutual

/-- Whether a value can be read in full. -/
def isReadable : Toml → Bool
  | .unreadable => false
  | .array items => allReadable items
  | .table entries => allReadableEntries entries
  | _ => true

/-- Whether every item can be read in full. -/
def allReadable : List Toml → Bool
  | [] => true
  | v :: rest => isReadable v && allReadable rest

/-- Whether every entry can be read in full. -/
def allReadableEntries : List (String × Toml) → Bool
  | [] => true
  | (_, v) :: rest => isReadable v && allReadableEntries rest

end

/-- The key under which the text of a date or time stands when it counts as a table. -/
def dateTimeKey : String := "$__toml_private_datetime"

/-- The entries of a table. A date or time counts as a table that holds its text. -/
def entries? : Toml → Option (List (String × Toml))
  | .table entries => some entries
  | .dateTime d => some [(dateTimeKey, .string d.text)]
  | _ => none

end Toml

end HubBindings
