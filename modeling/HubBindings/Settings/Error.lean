/-!
Why a run cannot be configured.
-/

namespace HubBindings

/-- What is wrong with the settings of a run. -/
inductive SettingsError where
  /-- No type with the metadata name of a marker is declared. -/
  | missingMarker (metadataName : String)
  /-- The document is not TOML, or a value has the wrong type. -/
  | invalidToml (path reason : String)
  /-- A value is outside of its range. -/
  | invalidValue (key reason : String)
  /-- The file cannot be read as text. -/
  | unreadableFile (path : String)
  deriving DecidableEq, Repr

/-- The text of an error. -/
def SettingsError.message : SettingsError → String
  | missingMarker name => "Marker attribute '" ++ name ++ "' could not be resolved"
  | invalidToml path reason => "Invalid TOML in " ++ path ++ ": " ++ reason
  | invalidValue key reason => "Invalid configuration value for '" ++ key ++ "': " ++ reason
  | unreadableFile path => "Failed to read config " ++ path

end HubBindings
