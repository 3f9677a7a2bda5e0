/-!
A settings file to start from, with every setting at its default and a comment on each.
-/

namespace HubBindings.Settings

/-- The lines of the commented settings file. -/
def templateLines : List String :=
  ["# hubgen configuration file",
   "",
   "[output]",
   "# End-of-line sequence (lf, cr, crlf)",
   "eol = \"lf\"",
   "",
   "# Spaces per indentation level",
   "indent = 4",
   "",
   "# Subdirectory for interface files and index.ts",
   "directory = \"hubs\"",
   "",
   "# Module the transport types are imported from",
   "transport_module = \"@microsoft/signalr\"",
   "",
   "# Whether to generate JSDoc comments on interface members",
   "emit_docs = true",
   "",
   "[naming]",
   "# Style for properties and methods (none, camelCase, PascalCase)",
   "naming_style = \"camelCase\"",
   "",
   "# Style for method names only; defaults to naming_style",
   "# method_style = \"camelCase\"",
   "",
   "# Style for enum members (none, camelCase, PascalCase)",
   "enum_naming_style = \"PascalCase\"",
   "",
   "[transpile]",
   "# Transport serializer (json, messagepack)",
   "serializer = \"json\"",
   "",
   "# Also generate bindings for marked interfaces in referenced modules",
   "include_referenced_modules = false",
   "",
   "[transpile.type_overrides]",
   "# \"System.Numerics.BigInteger\" = \"bigint\""]

/-- The text of the commented settings file. -/
def template : String := String.join (templateLines.map (· ++ "\n"))

end HubBindings.Settings
