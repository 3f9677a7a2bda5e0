import HubBindings.Settings.Basic
import HubBindings.Settings.Error
import HubBindings.Text.WhiteSpace

/-!
Ranges of settings that their types alone do not keep.
-/

namespace HubBindings.Settings

/-- The widest indentation level. -/
def maxIndent : Nat := 16

/-- The error for an indentation width out of range. -/
def indentOutOfRange (n : Nat) : SettingsError :=
  .invalidValue "output.indent" ("must be between 1 and 16, got " ++ toString n)

/-- The error for a directory without a name. -/
def blankDirectory : SettingsError := .invalidValue "output.directory" "must not be empty"

/-- Checks the indentation width first and the directory second. -/
def validate (s : Settings) : Except SettingsError Unit :=
  if s.output.indentWidth < 1 ∨ maxIndent < s.output.indentWidth then
    .error (indentOutOfRange s.output.indentWidth)
  else if Text.isBlank s.output.directory then .error blankDirectory
  else .ok ()

end HubBindings.Settings
