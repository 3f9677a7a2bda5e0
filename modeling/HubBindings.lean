import HubBindings.Text.CaseMapping
import HubBindings.Text.WhiteSpace
import HubBindings.Text.LineEnding
import HubBindings.Text.Layout
import HubBindings.Text.Decimal
import HubBindings.Naming
import HubBindings.Diagnostic
import HubBindings.Json.Value
import HubBindings.Json.Token
import HubBindings.Json.Reader
import HubBindings.Json.Printer
import HubBindings.Toml.DateTime
import HubBindings.Toml.Value
import HubBindings.Toml.Scalar
import HubBindings.Toml.Quoted
import HubBindings.Toml.Tree
import HubBindings.Toml.Reader
import HubBindings.Ascending
import HubBindings.Settings.Basic
import HubBindings.Settings.Error
import HubBindings.Settings.Validation
import HubBindings.Settings.Decode
import HubBindings.Settings.Template
import HubBindings.TypeGraph.Basic
import HubBindings.TypeGraph.Query
import HubBindings.TypeGraph.Error
import HubBindings.TypeGraph.Build
import HubBindings.TypeGraph.CoreLibrary
import HubBindings.TypeGraph.Hierarchy
import HubBindings.Manifest.Basic
import HubBindings.Manifest.Codec
import HubBindings.Manifest.Load
import HubBindings.WellKnown
import HubBindings.CallShape
import HubBindings.Contract
import HubBindings.Rendering.Basic
import HubBindings.Rendering.Rule
import HubBindings.Rendering.Render
import HubBindings.Binding
import HubBindings.Client.Import
import HubBindings.Client.InterfaceFile
import HubBindings.Client.IndexFile
import HubBindings.Generator
import HubBindings.Proofs.Sequencing
import HubBindings.Proofs.Ascending
import HubBindings.Proofs.TypeGraph.Reachable
import HubBindings.Proofs.TypeGraph.Names
import HubBindings.Proofs.Binding
import HubBindings.Proofs.Contract
import HubBindings.Proofs.WellKnown
import HubBindings.Proofs.CallShape
import HubBindings.Proofs.Rendering.Trace
import HubBindings.Proofs.Rendering.Wrapped
import HubBindings.Proofs.Rendering.Positions
import HubBindings.Proofs.Rendering.Mentions
import HubBindings.Proofs.Generator
import HubBindings.Proofs.Conservation
import HubBindings.Proofs.Agreement
import HubBindings.Proofs.Client.InterfaceFile
import HubBindings.Proofs.Client.Proxy
import HubBindings.Proofs.Client.Binder
import HubBindings.Proofs.Client.Paths
import HubBindings.Proofs.Client.LookUp
import HubBindings.Proofs.TypeGraph.Consistent
import HubBindings.Proofs.TypeGraph.Representation
import HubBindings.Proofs.TypeGraph.Answers
import HubBindings.Proofs.TypeGraph.Renaming
import HubBindings.Proofs.Rendering.Renaming
import HubBindings.Proofs.Renaming
import HubBindings.Proofs.Outcome
import HubBindings.Proofs.TypeGraph.Kept
import HubBindings.Proofs.NamingStyle
import HubBindings.Proofs.Client.Imports
import HubBindings.Proofs.Loading
import HubBindings.Proofs.TypeGraph.Resolution
import HubBindings.Proofs.Acceptance
import HubBindings.Proofs.TypeGraph.Stability
import HubBindings.Proofs.Discovery
import HubBindings.Proofs.TypeGraph.Extension
import HubBindings.Proofs.Locality
import HubBindings.Proofs.TypeGraph.Inheritance
import HubBindings.Proofs.Fallbacks
import HubBindings.Proofs.Text.Layout
import HubBindings.Proofs.Presentation
import HubBindings.Proofs.Manifest.Reference
import HubBindings.Proofs.Manifest.Records
import HubBindings.Proofs.Manifest.Decoding
import HubBindings.Proofs.Rendering.Shape
import HubBindings.Proofs.Rendering.Tree
import HubBindings.Proofs.TypeGraph.Hiding
import HubBindings.Proofs.Rendering.Overrides
import HubBindings.Proofs.Merging
import HubBindings.Proofs.Rendering.Domain
import HubBindings.Proofs.Rendering.Expression
import HubBindings.Proofs.Rendering.References
import HubBindings.Proofs.Rendering.SelfContained
import HubBindings.Proofs.Client.Disposal
import HubBindings.Proofs.Client.ProxyMembers
import HubBindings.Proofs.Text.Tokens
import HubBindings.Proofs.TypeGraph.Identity
import HubBindings.Proofs.Client.Grouping
import HubBindings.Proofs.Client.Identifiers
import HubBindings.Proofs.Text.Indentation
import HubBindings.Proofs.TypeGraph.Descent
import HubBindings.Proofs.Rendering.Descent
