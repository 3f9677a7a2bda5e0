import HubBindings.Text.CaseMapping

/-!
Naming styles for generated members. A style changes the first character only, so `GetURL` becomes
`getURL` in camel case.
-/

namespace HubBindings

/-- A case convention for identifiers. -/
inductive NamingStyle where
  /-- The declared spelling. -/
  | asDeclared
  | camelCase
  | pascalCase
  deriving DecidableEq, Repr

namespace NamingStyle

/-- What a style does to the first character of a name. -/
def mapFirst : NamingStyle → Char → List Char
  | asDeclared, c => [c]
  | camelCase, c => Text.lowerCase c
  | pascalCase, c => Text.upperCase c

/-- A name in the given style. -/
def apply (style : NamingStyle) (name : String) : String :=
  match name.toList with
  | [] => ""
  | c :: rest => String.ofList (style.mapFirst c ++ rest)

theorem asDeclared_apply (name : String) : asDeclared.apply name = name := by
  unfold apply
  split <;> rename_i h
  · exact (String.toList_eq_nil_iff.mp h).symm
  · rw [mapFirst, List.singleton_append, ← h, String.ofList_toList]

/-- The style with a given configuration name. -/
def ofName? : String → Option NamingStyle
  | "none" => some asDeclared
  | "camelCase" => some camelCase
  | "PascalCase" => some pascalCase
  | _ => none

/-- The configuration name of a style. -/
def name : NamingStyle → String
  | asDeclared => "none"
  | camelCase => "camelCase"
  | pascalCase => "PascalCase"

theorem ofName?_name (s : NamingStyle) : ofName? s.name = some s := by
  cases s <;> rfl

end NamingStyle

end HubBindings
