import HubBindings.Settings.Validation
import HubBindings.Toml.Reader

/-!
Settings from TOML. Unknown keys are skipped, missing ones keep their defaults, and a value of the
wrong type spoils the document. A section may also be an array that gives its values in order; what
follows its last value is not looked at.
-/

namespace HubBindings.Settings

/-- The fields of a section by name. What stands under other names has to be readable. -/
def namedFields (names : List String) (entries : List (String × Toml)) :
    Option (List (Option Toml)) :=
  if entries.all fun (key, v) => names.contains key || v.isReadable then
    some (names.map fun name => entries.lookup name)
  else none

/-- The fields of a section, by name from a table or by position from an array. -/
def fieldsOf (names : List String) : Toml → Option (List (Option Toml))
  | .array items => some (names.zipIdx.map fun (_, i) => items[i]?)
  | v => v.entries?.bind (namedFields names)

/-- A field that may be missing. -/
def field {α : Type} (decode : Toml → Option α) (default : α) : Option Toml → Option α
  | none => some default
  | some v => decode v

/-- A text. -/
def string? : Toml → Option String
  | .string s => some s
  | _ => none

/-- A truth value. -/
def boolean? : Toml → Option Bool
  | .boolean b => some b
  | _ => none

/-- A size that fits 64 bits. -/
def size? : Toml → Option Nat
  | .integer n => if 0 ≤ n ∧ n < Int.ofNat Text.wordLimit then some n.toNat else none
  | _ => none

/-- One of several named values: its name, or a table that holds nothing under its name. -/
def choice? {α : Type} (ofName? : String → Option α) : Toml → Option α
  | .string s => ofName? s
  | .table [(name, .table [])] => ofName? name
  | .table [(name, .array [])] => ofName? name
  | _ => none

/-- A table of texts. -/
def texts? (v : Toml) : Option (List (String × String)) := do
  let pairs ← (← v.entries?).mapM fun (key, v) => (string? v).map fun s => (key, s)
  return pairs.foldl (fun table (key, s) => Ascending.put key s table) []

/-- Decodes the section `output`. -/
def output? (content : Toml) : Option OutputSettings := do
  let base : OutputSettings := {}
  match ← fieldsOf ["eol", "indent", "directory", "transport_module", "emit_docs"] content with
  | [eol, indent, directory, transport, docs] =>
    return {
      lineEnding := ← field (choice? Text.LineEnding.ofName?) base.lineEnding eol
      indentWidth := ← field size? base.indentWidth indent
      directory := ← field string? base.directory directory
      transportModule := ← field string? base.transportModule transport
      emitDocs := ← field boolean? base.emitDocs docs }
  | _ => none

/-- Decodes the section `naming`. -/
def naming? (content : Toml) : Option NamingSettings := do
  let base : NamingSettings := {}
  let style := choice? NamingStyle.ofName?
  match ← fieldsOf ["naming_style", "method_style", "enum_naming_style"] content with
  | [member, method, enum] =>
    return {
      memberStyle := ← field style base.memberStyle member
      methodStyle := ← field (fun v => (style v).map some) base.methodStyle method
      enumStyle := ← field style base.enumStyle enum }
  | _ => none

/-- Decodes the section `transpile`. -/
def types? (content : Toml) : Option TypeSettings := do
  let base : TypeSettings := {}
  match ← fieldsOf ["serializer", "include_referenced_modules", "type_overrides"] content with
  | [serializer, referenced, overrides] =>
    return {
      serializer := ← field (choice? Serializer.ofName?) base.serializer serializer
      includeReferenced := ← field boolean? base.includeReferenced referenced
      overrides := ← field texts? base.overrides overrides }
  | _ => none

/-- Decodes the section `symbols`. -/
def wellKnown? (content : Toml) : Option WellKnownNames := do
  let base : WellKnownNames := {}
  match ← fieldsOf ["task", "generic_task", "async_enumerable", "channel_reader",
      "cancellation_token", "hub_attribute", "receiver_attribute",
      "transpilation_source_attribute"] content with
  | [task, genericTask, asyncEnumerable, channelReader, token, hub, receiver, dataType] =>
    return {
      task := ← field string? base.task task
      genericTask := ← field string? base.genericTask genericTask
      asyncEnumerable := ← field string? base.asyncEnumerable asyncEnumerable
      channelReader := ← field string? base.channelReader channelReader
      cancellationToken := ← field string? base.cancellationToken token
      hubMarker := ← field string? base.hubMarker hub
      receiverMarker := ← field string? base.receiverMarker receiver
      dataTypeMarker := ← field string? base.dataTypeMarker dataType }
  | _ => none

/-- Decodes the root table of a document. -/
def ofDocument? (entries : List (String × Toml)) : Option Settings := do
  match ← namedFields ["output", "naming", "transpile", "symbols"] entries with
  | [output, naming, types, wellKnown] =>
    return {
      output := ← field output? {} output
      naming := ← field naming? {} naming
      types := ← field types? {} types
      wellKnown := ← field wellKnown? {} wellKnown }
  | _ => none

/-- Reads settings from the text of a document and validates them. `path` names the document in
errors. -/
def parse (path text : String) : Except SettingsError Settings :=
  match (Toml.parse? text).bind ofDocument? with
  | none => .error (.invalidToml path "not a settings document")
  | some s =>
    match s.validate with
    | .error e => .error e
    | .ok () => .ok s

/-- What is found where a settings file is looked for. -/
inductive File where
  | absent
  /-- Something that is no readable file. -/
  | unreadable
  | content (bytes : ByteArray)

/-- Settings from a file. No file means the defaults; a file has to hold text in UTF-8. -/
def load (path : String) : File → Except SettingsError Settings
  | .absent => .ok {}
  | .unreadable => .error (.unreadableFile path)
  | .content bytes =>
    match String.fromUTF8? bytes with
    | none => .error (.unreadableFile path)
    | some text => parse path text

end HubBindings.Settings
