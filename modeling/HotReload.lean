import HotReload.Cache.Basic
import HotReload.Cache.Key
import HotReload.Cache.Store
import HotReload.Cache.Table
import HotReload.Change.Event
import HotReload.Change.Notification
import HotReload.Change.Url
import HotReload.Command.Arguments
import HotReload.Command.Invocation
import HotReload.Command.Run
import HotReload.Component.Descriptor
import HotReload.Component.Host
import HotReload.Component.Parent
import HotReload.Component.Tree
import HotReload.Decimal.Layout
import HotReload.Decimal.Nearest
import HotReload.Decimal.Reading
import HotReload.Decimal.Shortest
import HotReload.Digest.Blake
import HotReload.Digest.Fingerprint
import HotReload.Files.Path
import HotReload.Files.Tree
import HotReload.Json.Canonical
import HotReload.Json.Fields
import HotReload.Json.Printer
import HotReload.Json.Reader
import HotReload.Json.Value
import HotReload.Main
import HotReload.Module.Binding
import HotReload.Module.Code
import HotReload.Module.Placeholder
import HotReload.Module.Plan
import HotReload.Module.Record
import HotReload.Module.Rendering
import HotReload.Module.Resolution
import HotReload.Module.Specifier
import HotReload.Module.Strategy
import HotReload.Reconcile.Activity
import HotReload.Reconcile.Basic
import HotReload.Reconcile.Outcome
import HotReload.Script.Character
import HotReload.Script.Class
import HotReload.Script.Compact
import HotReload.Script.Declaration
import HotReload.Script.Expression
import HotReload.Script.IdentifierTable
import HotReload.Script.Pattern
import HotReload.Script.Program
import HotReload.Script.Reader
import HotReload.Script.Rules
import HotReload.Script.Scanning
import HotReload.Script.Shape
import HotReload.Script.Statement
import HotReload.Script.Token
import HotReload.Session.Basic
import HotReload.Session.Message
import HotReload.Settings.Loading
import HotReload.Settings.Reading
import HotReload.Settings.Sections
import HotReload.Settings.Validation
import HotReload.Terminal.Note
import HotReload.Terminal.Output
import HotReload.Terminal.Status
import HotReload.Terminal.Style
import HotReload.Text.Blank
import HotReload.Text.Bytes
import HotReload.Text.Hex
import HotReload.Toml.Lexeme
import HotReload.Toml.Quoted
import HotReload.Toml.Reader
import HotReload.Toml.Table
import HotReload.Toml.Value
import HotReload.Transform.Basic
import HotReload.Transform.Result
import HotReload.Proofs.Module.Partition
import HotReload.Proofs.Script.Cursors
import HotReload.Proofs.Script.Composed
import HotReload.Proofs.Script.Grammar.Expressions
import HotReload.Proofs.Script.Grammar.Statements
import HotReload.Proofs.Script.Readers
import HotReload.Proofs.Module.Layout
import HotReload.Proofs.Decimal.Numerals
import HotReload.Proofs.Json.Strings
import HotReload.Proofs.Json.Texts
import HotReload.Proofs.Cache.Keys
import HotReload.Proofs.Json.Orders
import HotReload.Proofs.Settings.Options
import HotReload.Proofs.Transform.Transparency
import HotReload.Proofs.Cache.Agreement
import HotReload.Proofs.Cache.Recency
import HotReload.Proofs.Cache.Expiry
import HotReload.Proofs.Json.Documents
import HotReload.Proofs.Component.Ancestors
import HotReload.Proofs.Reconcile.Effects
import HotReload.Proofs.Reconcile.Escalation
import HotReload.Proofs.Reconcile.Reports
import HotReload.Proofs.Session.Roots
import HotReload.Proofs.Component.Places
import HotReload.Proofs.Component.Views
import HotReload.Proofs.Component.Shelter
import HotReload.Proofs.Reconcile.Replay
import HotReload.Proofs.Reconcile.KeptAlive
import HotReload.Proofs.Json.Likeness
import HotReload.Proofs.Cache.Configurations
import HotReload.Proofs.Module.Placeholders
import HotReload.Proofs.Module.Stamping
import HotReload.Proofs.Component.Chains
import HotReload.Proofs.Reconcile.RootParent
import HotReload.Proofs.Reconcile.Lockstep
import HotReload.Proofs.Reconcile.Turns
import HotReload.Proofs.Reconcile.Containment
import HotReload.Proofs.Reconcile.Registries
import HotReload.Proofs.Session.Registries
import HotReload.Proofs.Reconcile.Calm
import HotReload.Proofs.Session.Commuting
import HotReload.Proofs.Session.Telling
import HotReload.Proofs.Change.Routing
import HotReload.Proofs.Script.Trivia
import HotReload.Proofs.Script.Results
import HotReload.Proofs.Script.Steps
import HotReload.Proofs.Script.Gaps
import HotReload.Proofs.Module.Coverage
import HotReload.Proofs.Module.Phases
import HotReload.Proofs.Session.Wire
import HotReload.Proofs.Transform.Separation
import HotReload.Proofs.Terminal.Blocks
import HotReload.Proofs.Component.Addresses
import HotReload.Proofs.Module.Splicing
import HotReload.Proofs.Module.Lookups
import HotReload.Proofs.Script.Lexemes
import HotReload.Proofs.Script.Names
import HotReload.Proofs.Module.Loaders
import HotReload.Proofs.Module.Loading
import HotReload.Proofs.Cache.Environments
import HotReload.Proofs.Transform.Persistence
import HotReload.Proofs.Script.Rows
import HotReload.Proofs.Module.Imports
import HotReload.Proofs.Module.Hygiene
import HotReload.Proofs.Module.Specifiers
import HotReload.Proofs.Change.References
import HotReload.Proofs.Session.Loads
