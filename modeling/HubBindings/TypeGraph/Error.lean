/-!
Why a type graph cannot be built.
-/

namespace HubBindings

/-- What is wrong with a reference or a declaration. -/
inductive GraphError where
  /-- No type with this metadata name is declared. -/
  | unresolvedType (name : String)
  /-- A metadata name is declared with two kinds. -/
  | duplicateDefinition (name first second : String)
  /-- A definition has another number of type parameters than there are arguments. -/
  | arityMismatch (name : String) (expected found : Nat)
  deriving DecidableEq, Repr

/-- The text of an error. -/
def GraphError.message : GraphError → String
  | unresolvedType name => "Unresolved type reference '" ++ name ++ "'"
  | duplicateDefinition name first second =>
    "Type '" ++ name ++ "' is declared as both " ++ first ++ " and " ++ second
  | arityMismatch name expected found =>
    "Type '" ++ name ++ "' expects " ++ toString expected ++ " type argument(s), found "
      ++ toString found

end HubBindings
