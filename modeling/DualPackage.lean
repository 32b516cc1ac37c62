import DualPackage.Alias.Glob
import DualPackage.Alias.Resolve
import DualPackage.Alias.Source
import DualPackage.Alias.Table
import DualPackage.Clause.Basic
import DualPackage.Clause.Form
import DualPackage.Clause.Revision
import DualPackage.CommandLine.Arguments
import DualPackage.CommandLine.Execute
import DualPackage.CommandLine.Output
import DualPackage.Config.Basic
import DualPackage.Config.Json
import DualPackage.Config.Load
import DualPackage.CopyPolicy
import DualPackage.Decimal.Shortest
import DualPackage.Disk.Access
import DualPackage.Disk.Basic
import DualPackage.Disk.Fault
import DualPackage.Disk.Resolve
import DualPackage.Disk.Snapshot
import DualPackage.EsmSource
import DualPackage.Failure
import DualPackage.Json.Fault
import DualPackage.Json.Number
import DualPackage.Json.Printer
import DualPackage.Json.Reader
import DualPackage.Json.Value
import DualPackage.Main
import DualPackage.ModuleKind
import DualPackage.Path.Basic
import DualPackage.Proofs.Alias.Expression
import DualPackage.Proofs.Alias.Glob
import DualPackage.Proofs.Alias.Inside
import DualPackage.Proofs.Alias.Pattern
import DualPackage.Proofs.Alias.Precedence
import DualPackage.Proofs.Alias.ReadBack
import DualPackage.Proofs.Alias.Resolution
import DualPackage.Proofs.Alias.Settled
import DualPackage.Proofs.Clause.Commute
import DualPackage.Proofs.Clause.Cut
import DualPackage.Proofs.Clause.Extension
import DualPackage.Proofs.Clause.Fusion
import DualPackage.Proofs.Clause.Idempotence
import DualPackage.Proofs.Clause.Insertions
import DualPackage.Proofs.Clause.Occurrences
import DualPackage.Proofs.Clause.Paired
import DualPackage.Proofs.Clause.Reading
import DualPackage.Proofs.Clause.Statements
import DualPackage.Proofs.Clause.Taken
import DualPackage.Proofs.Clause.Unambiguous
import DualPackage.Proofs.Clause.WellQuoted
import DualPackage.Proofs.CommandLine.Flag
import DualPackage.Proofs.CommandLine.Footprint
import DualPackage.Proofs.CommandLine.Spelling
import DualPackage.Proofs.CommandLine.Template
import DualPackage.Proofs.CommandLine.Verbosity
import DualPackage.Proofs.Config.Existing
import DualPackage.Proofs.Config.Format
import DualPackage.Proofs.Config.Loaded
import DualPackage.Proofs.Disk.Access
import DualPackage.Proofs.Disk.Again
import DualPackage.Proofs.Disk.Agree
import DualPackage.Proofs.Disk.Dots
import DualPackage.Proofs.Disk.Growth
import DualPackage.Proofs.Disk.Linked
import DualPackage.Proofs.Disk.Onward
import DualPackage.Proofs.Disk.Order
import DualPackage.Proofs.Disk.Resolve
import DualPackage.Proofs.Disk.Skeleton
import DualPackage.Proofs.Esm.Dirname
import DualPackage.Proofs.Esm.JsonAttribute
import DualPackage.Proofs.Esm.Projection
import DualPackage.Proofs.Json.Members
import DualPackage.Proofs.Json.RoundTrip
import DualPackage.Proofs.Json.Scalars
import DualPackage.Proofs.Keyed
import DualPackage.Proofs.Path.Absolute
import DualPackage.Proofs.Path.Names
import DualPackage.Proofs.Path.Normalized
import DualPackage.Proofs.Path.Place
import DualPackage.Proofs.Path.Tidy
import DualPackage.Proofs.Run.ByTrees
import DualPackage.Proofs.Run.Carried
import DualPackage.Proofs.Run.Confinement
import DualPackage.Proofs.Run.Contract
import DualPackage.Proofs.Run.Copies
import DualPackage.Proofs.Run.Course
import DualPackage.Proofs.Run.Markers
import DualPackage.Proofs.Run.Oblivious
import DualPackage.Proofs.Run.Outcome
import DualPackage.Proofs.Run.Outputs
import DualPackage.Proofs.Run.Pruning
import DualPackage.Proofs.Run.Rerun
import DualPackage.Proofs.Run.Settling
import DualPackage.Proofs.Run.Shares
import DualPackage.Proofs.Run.Stages
import DualPackage.Proofs.Run.Trails
import DualPackage.Proofs.Run.Treatment
import DualPackage.Proofs.Run.Warnings
import DualPackage.Proofs.Text.ByteOrder
import DualPackage.Proofs.Text.Edits
import DualPackage.Proofs.Text.FirstMatch
import DualPackage.Proofs.Text.Grouped
import DualPackage.Proofs.Text.Leftmost
import DualPackage.Proofs.Text.Marked
import DualPackage.Proofs.Text.Words
import DualPackage.Proofs.Tree.Copy
import DualPackage.Proofs.Tree.Course
import DualPackage.Proofs.Tree.Effects
import DualPackage.Proofs.Tree.Enumeration
import DualPackage.Proofs.Tree.Fixed
import DualPackage.Proofs.Tree.Listing
import DualPackage.Proofs.Tree.Loops
import DualPackage.Proofs.Tree.Mirror
import DualPackage.Proofs.Tree.Pruned
import DualPackage.Proofs.Tree.Revisits
import DualPackage.Proofs.Tree.Rewrite
import DualPackage.Proofs.Tree.Sightings
import DualPackage.Proofs.Tree.Tour
import DualPackage.Proofs.Tree.Walk
import DualPackage.Run.Marker
import DualPackage.Run.Stages
import DualPackage.Run.World
import DualPackage.Specifier
import DualPackage.Text.Blank
import DualPackage.Text.Quoted
import DualPackage.Text.Ranges
import DualPackage.Text.Scan
import DualPackage.Text.Word
import DualPackage.Tree.Copy
import DualPackage.Tree.Rewrite
import DualPackage.Tree.Walk
