import HubBindings.Ascending
import HubBindings.TypeGraph.Basic

/-!
What goes into the rendering of a type and what comes out of it besides the text.
-/

namespace HubBindings

/-- Where a type stands. Streams are rendered differently where a hub returns them. -/
inductive Position where
  | argument
  | hubReturn
  | receiverReturn
  /-- Inside of another type. -/
  | nested
  deriving DecidableEq, Repr

/-- The name of a position. -/
def Position.name : Position → String
  | argument => "Argument"
  | hubReturn => "HubReturn"
  | receiverReturn => "ReceiverReturn"
  | nested => "Nested"

/-- A type of the transport that a rendered type may refer to. -/
inductive Wrapper where
  /-- A stream that the caller consumes. -/
  | streamResult
  /-- A stream that the client feeds. -/
  | subject
  deriving DecidableEq, Repr

/-- The identifier of a wrapper in the transport module. -/
def Wrapper.identifier : Wrapper → String
  | streamResult => "IStreamResult"
  | subject => "Subject"

/-- The place of a wrapper in lists. -/
def Wrapper.rank : Wrapper → Nat
  | streamResult => 0
  | subject => 1

instance : Ord Wrapper := ⟨fun a b => compare a.rank b.rank⟩

/-- What rendered texts refer to, both in ascending order. -/
structure References where
  wrappers : List Wrapper := []
  /-- Definitions of data types. -/
  dataTypes : List TypeId := []
  deriving DecidableEq, Repr

namespace References

/-- Notes a wrapper. -/
def addWrapper (r : References) (x : Wrapper) : References :=
  { r with wrappers := Ascending.insert x r.wrappers }

/-- Notes the definition of a data type. -/
def addDataType (r : References) (ty : TypeId) : References :=
  { r with dataTypes := Ascending.insert ty r.dataTypes }

/-- Notes everything that another collection holds. -/
def union (r other : References) : References :=
  { wrappers := Ascending.insertAll other.wrappers r.wrappers
    dataTypes := Ascending.insertAll other.dataTypes r.dataTypes }

end References

/-- Why a type cannot be rendered. -/
inductive RenderError where
  /-- No rule is in charge of the type with this text. -/
  | unsupported (display : String)
  /-- A type with this metadata name lacks its argument. -/
  | missingTypeArgument (metadataName : String)
  deriving DecidableEq, Repr

/-- The text of an error. -/
def RenderError.message : RenderError → String
  | unsupported display => "Unsupported type '" ++ display ++ "'"
  | missingTypeArgument name => "Type '" ++ name ++ "' is missing its type argument"

end HubBindings
