import TypeCatalog.Act
import TypeCatalog.Command.Bundle
import TypeCatalog.Command.Console
import TypeCatalog.Command.Request
import TypeCatalog.Discovery.Glob
import TypeCatalog.Discovery.Rules
import TypeCatalog.Discovery.SourceFiles
import TypeCatalog.Error
import TypeCatalog.Files
import TypeCatalog.Main
import TypeCatalog.Path
import TypeCatalog.Precedence
import TypeCatalog.Proofs.Accepting
import TypeCatalog.Proofs.Alongside
import TypeCatalog.Proofs.Answering
import TypeCatalog.Proofs.AppendOnly
import TypeCatalog.Proofs.Cataloguing
import TypeCatalog.Proofs.Climbing
import TypeCatalog.Proofs.Coherence
import TypeCatalog.Proofs.Comments
import TypeCatalog.Proofs.Contents
import TypeCatalog.Proofs.Continuity
import TypeCatalog.Proofs.Counting
import TypeCatalog.Proofs.Deduplication
import TypeCatalog.Proofs.Describing
import TypeCatalog.Proofs.DocumentOrder
import TypeCatalog.Proofs.Documents
import TypeCatalog.Proofs.Draining
import TypeCatalog.Proofs.Effects
import TypeCatalog.Proofs.Flushing
import TypeCatalog.Proofs.Gating
import TypeCatalog.Proofs.Growth
import TypeCatalog.Proofs.Integrity
import TypeCatalog.Proofs.Interruption
import TypeCatalog.Proofs.Ledger
import TypeCatalog.Proofs.Loading
import TypeCatalog.Proofs.Lockstep
import TypeCatalog.Proofs.Names
import TypeCatalog.Proofs.Nesting
import TypeCatalog.Proofs.Namespaces
import TypeCatalog.Proofs.Opening
import TypeCatalog.Proofs.Operations
import TypeCatalog.Proofs.Ordering
import TypeCatalog.Proofs.Permanence
import TypeCatalog.Proofs.Placement
import TypeCatalog.Proofs.Positions
import TypeCatalog.Proofs.Provenance
import TypeCatalog.Proofs.Pursuit
import TypeCatalog.Proofs.Quoting
import TypeCatalog.Proofs.Recognition
import TypeCatalog.Proofs.ReferenceTree
import TypeCatalog.Proofs.Requests
import TypeCatalog.Proofs.Rereading
import TypeCatalog.Proofs.Resolution
import TypeCatalog.Proofs.Resolvable
import TypeCatalog.Proofs.RoundTrip
import TypeCatalog.Proofs.RowCodec
import TypeCatalog.Proofs.Run
import TypeCatalog.Proofs.Saving
import TypeCatalog.Proofs.Scanning
import TypeCatalog.Proofs.Scoping
import TypeCatalog.Proofs.SettingsText
import TypeCatalog.Proofs.Settling
import TypeCatalog.Proofs.Shadowing
import TypeCatalog.Proofs.Shape
import TypeCatalog.Proofs.Sites
import TypeCatalog.Proofs.Stability
import TypeCatalog.Proofs.Tightening
import TypeCatalog.Proofs.TopologicalOrder
import TypeCatalog.Proofs.Transparency
import TypeCatalog.Proofs.Trivia
import TypeCatalog.Proofs.TupleSearch
import TypeCatalog.Proofs.TupleTrace
import TypeCatalog.Proofs.Tuples
import TypeCatalog.Proofs.Twins
import TypeCatalog.Proofs.Values
import TypeCatalog.Proofs.Visiting
import TypeCatalog.Proofs.Writing
import TypeCatalog.Report.Grid
import TypeCatalog.Report.Json
import TypeCatalog.Report.Listing
import TypeCatalog.Resolve.Analysis
import TypeCatalog.Resolve.Context
import TypeCatalog.Resolve.Descriptor
import TypeCatalog.Resolve.Find
import TypeCatalog.Resolve.Order
import TypeCatalog.Resolve.Reference
import TypeCatalog.Resolve.Resolved
import TypeCatalog.Row
import TypeCatalog.RowId
import TypeCatalog.Scan.Declarations
import TypeCatalog.Scan.References
import TypeCatalog.Session
import TypeCatalog.Settings.Basic
import TypeCatalog.Settings.Document
import TypeCatalog.Settings.Toml
import TypeCatalog.Settings.Value
import TypeCatalog.Settings.Variables
import TypeCatalog.Settings.Workspace
import TypeCatalog.Settings.Writer
import TypeCatalog.Source.Declaration
import TypeCatalog.Source.Name
import TypeCatalog.Source.Scope
import TypeCatalog.Source.TypeForm
import TypeCatalog.Span
import TypeCatalog.Store.Cell
import TypeCatalog.Store.Database
import TypeCatalog.Store.Decode
import TypeCatalog.Store.Encode
import TypeCatalog.Store.Location
import TypeCatalog.Text.Blank
import TypeCatalog.Text.CodePoints
import TypeCatalog.Text.Decimal
import TypeCatalog.Text.Dotted
import TypeCatalog.Text.Emoji
import TypeCatalog.Text.Escape
import TypeCatalog.Text.Extender
import TypeCatalog.Text.Form
import TypeCatalog.Text.Hexadecimal
import TypeCatalog.Text.Hidden
import TypeCatalog.Text.Ligature
import TypeCatalog.Text.NameSet
import TypeCatalog.Text.Printable
import TypeCatalog.Text.Wide
import TypeCatalog.Text.Width
import TypeCatalog.Tree.Basic
import TypeCatalog.Tree.Unit
import TypeCatalog.Proofs.Traversal
import TypeCatalog.Proofs.Mirroring
import TypeCatalog.Proofs.Spelling
import TypeCatalog.Proofs.Spines
import TypeCatalog.Proofs.Importing
import TypeCatalog.Proofs.FullNames
import TypeCatalog.Proofs.Tiers
import TypeCatalog.Proofs.Visibility
import TypeCatalog.Proofs.Scopes
import TypeCatalog.Proofs.Closing
import TypeCatalog.Proofs.Qualification
import TypeCatalog.Proofs.Sharing
import TypeCatalog.Proofs.Accounting
import TypeCatalog.Proofs.Spanning
import TypeCatalog.Proofs.Permuting
import TypeCatalog.Proofs.SavedSettings
import TypeCatalog.Proofs.Locating
