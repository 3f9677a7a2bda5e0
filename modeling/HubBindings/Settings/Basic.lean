import HubBindings.Ascending
import HubBindings.Naming
import HubBindings.Text.LineEnding

/-!
Settings of a run: how files are laid out, how members are named, which types are taken over, and
under which metadata names the well-known types are found. Every setting has a default.
-/

namespace HubBindings

/-- Layout of the generated files. -/
structure OutputSettings where
  lineEnding : Text.LineEnding := .lf
  /-- Spaces of one indentation level. -/
  indentWidth : Nat := 4
  /-- Directory of the interface files and of the index. -/
  directory : String := "hubs"
  /-- Module that the transport types are imported from. -/
  transportModule : String := "@microsoft/signalr"
  /-- Whether members of interface types carry documentation. -/
  emitDocs : Bool := true
  deriving DecidableEq, Repr

/-- Naming styles. -/
structure NamingSettings where
  /-- Style of properties, and of methods unless they have a style of their own. -/
  memberStyle : NamingStyle := .camelCase
  methodStyle : Option NamingStyle := none
  enumStyle : NamingStyle := .pascalCase
  deriving DecidableEq, Repr

/-- The serializer of the transport. -/
inductive Serializer where
  | json
  | messagePack
  deriving DecidableEq, Repr

/-- The serializer with a given configuration name. -/
def Serializer.ofName? : String → Option Serializer
  | "json" => some json
  | "messagepack" => some messagePack
  | _ => none

/-- The configuration name of a serializer. -/
def Serializer.name : Serializer → String
  | json => "json"
  | messagePack => "messagepack"

/-- Which types are taken over, and how. -/
structure TypeSettings where
  serializer : Serializer := .json
  /-- Whether marked interfaces of referenced modules count too. -/
  includeReferenced : Bool := false
  /-- Texts for types, by metadata name, in ascending order of the names. -/
  overrides : List (String × String) := []
  deriving DecidableEq, Repr

/-- Metadata names of the well-known types. -/
structure WellKnownNames where
  task : String := "System.Threading.Tasks.Task"
  genericTask : String := "System.Threading.Tasks.Task`1"
  asyncEnumerable : String := "System.Collections.Generic.IAsyncEnumerable`1"
  channelReader : String := "System.Threading.Channels.ChannelReader`1"
  cancellationToken : String := "System.Threading.CancellationToken"
  hubMarker : String := "TypedSignalR.Client.HubAttribute"
  receiverMarker : String := "TypedSignalR.Client.ReceiverAttribute"
  dataTypeMarker : String := "Tapper.TranspilationSourceAttribute"
  deriving DecidableEq, Repr

/-- The settings of a run. -/
structure Settings where
  output : OutputSettings := {}
  naming : NamingSettings := {}
  types : TypeSettings := {}
  wellKnown : WellKnownNames := {}
  deriving DecidableEq, Repr

namespace Settings

/-- The style of method names. -/
def methodStyle (s : Settings) : NamingStyle := s.naming.methodStyle.getD s.naming.memberStyle

/-- The text of one indentation level. -/
def indentUnit (s : Settings) : String := String.ofList (List.replicate s.output.indentWidth ' ')

/-- Adds an override; a later one for the same type replaces an earlier one. -/
def withOverride (s : Settings) (metadataName text : String) : Settings :=
  { s with types.overrides := Ascending.put metadataName text s.types.overrides }

end Settings

end HubBindings
