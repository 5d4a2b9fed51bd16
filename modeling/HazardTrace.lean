import HazardTrace.Analysis
import HazardTrace.CallGraph
import HazardTrace.Chain
import HazardTrace.Collections
import HazardTrace.Collector
import HazardTrace.Collector.Clerk
import HazardTrace.Command.Args
import HazardTrace.Command.Filter
import HazardTrace.Command.Run
import HazardTrace.Files.Path
import HazardTrace.Files.System
import HazardTrace.Inheritance
import HazardTrace.Json.Basic
import HazardTrace.Json.Escape
import HazardTrace.Json.Lexer
import HazardTrace.Json.Printer
import HazardTrace.Json.Reader
import HazardTrace.Log
import HazardTrace.Main
import HazardTrace.Marking
import HazardTrace.Note
import HazardTrace.Numbering
import HazardTrace.Pattern.Basic
import HazardTrace.Pattern.Reader
import HazardTrace.Pattern.Support
import HazardTrace.Program
import HazardTrace.Proofs.Analysis.Exposure
import HazardTrace.Proofs.Analysis.Findings
import HazardTrace.Proofs.Analysis.Graph
import HazardTrace.Proofs.Analysis.Openings
import HazardTrace.Proofs.Analysis.Phases
import HazardTrace.Proofs.Analysis.Relation
import HazardTrace.Proofs.Analysis.Repetition
import HazardTrace.Proofs.Analysis.SafeMethods
import HazardTrace.Proofs.Analysis.SafeRules
import HazardTrace.Proofs.Analysis.Seeds
import HazardTrace.Proofs.Analysis.Soundness
import HazardTrace.Proofs.Analysis.Suppression
import HazardTrace.Proofs.Analysis.Verdicts
import HazardTrace.Proofs.Collector.Arrival
import HazardTrace.Proofs.Collector.CallSites
import HazardTrace.Proofs.Collector.Clerk
import HazardTrace.Proofs.Collector.Conservation
import HazardTrace.Proofs.Collector.Coverage
import HazardTrace.Proofs.Collector.Draining
import HazardTrace.Proofs.Collector.Grouping
import HazardTrace.Proofs.Collector.Handed
import HazardTrace.Proofs.Collector.Order
import HazardTrace.Proofs.Collector.Records
import HazardTrace.Proofs.Collector.Stopping
import HazardTrace.Proofs.Collector.Tables
import HazardTrace.Proofs.Concurrent.Completeness
import HazardTrace.Proofs.Concurrent.Machine
import HazardTrace.Proofs.Concurrent.Pool
import HazardTrace.Proofs.Concurrent.Sequential
import HazardTrace.Proofs.Files.Following
import HazardTrace.Proofs.Files.Order
import HazardTrace.Proofs.Files.Spelling
import HazardTrace.Proofs.Graph.Construction
import HazardTrace.Proofs.Inheritance.Account
import HazardTrace.Proofs.Inheritance.Comparison
import HazardTrace.Proofs.Inheritance.Descent
import HazardTrace.Proofs.Inheritance.Exactness
import HazardTrace.Proofs.Inheritance.Handing
import HazardTrace.Proofs.Inheritance.Shielding
import HazardTrace.Proofs.Json.Comments
import HazardTrace.Proofs.Json.Records
import HazardTrace.Proofs.Json.RoundTrip
import HazardTrace.Proofs.Json.Spelling
import HazardTrace.Proofs.Marking.Finality
import HazardTrace.Proofs.Marking.Rules
import HazardTrace.Proofs.Marking.Shadow
import HazardTrace.Proofs.Numbering.History
import HazardTrace.Proofs.Ordering
import HazardTrace.Proofs.Program.Numbering
import HazardTrace.Proofs.Program.Pairs
import HazardTrace.Proofs.Program.RoundTrip
import HazardTrace.Proofs.Report.Completion
import HazardTrace.Proofs.Report.Document
import HazardTrace.Proofs.Report.Sections
import HazardTrace.Proofs.Report.Shape
import HazardTrace.Proofs.Report.Truncation
import HazardTrace.Proofs.Report.Written
import HazardTrace.Proofs.Rule.Checking
import HazardTrace.Proofs.Rule.Drafts
import HazardTrace.Proofs.Rule.Listing
import HazardTrace.Proofs.Search.Cancellation
import HazardTrace.Proofs.Search.Cap
import HazardTrace.Proofs.Search.Climbing
import HazardTrace.Proofs.Search.Discovery
import HazardTrace.Proofs.Search.Exactness
import HazardTrace.Proofs.Search.Interior
import HazardTrace.Proofs.Search.Lookups
import HazardTrace.Proofs.Search.Paths
import HazardTrace.Proofs.Search.Walk
import HazardTrace.Proofs.Traversal
import HazardTrace.Reflection
import HazardTrace.Report.Delivery
import HazardTrace.Report.Writer
import HazardTrace.Rule
import HazardTrace.Search
import HazardTrace.Settings
import HazardTrace.Text
import HazardTrace.Toml.Basic
import HazardTrace.Toml.Reader
import HazardTrace.Toml.Scalar
import HazardTrace.Toml.Text
