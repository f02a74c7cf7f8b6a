import FaultPlan.Analysis
import FaultPlan.Bench.Binutils
import FaultPlan.Bench.Call
import FaultPlan.Bench.Capture
import FaultPlan.Bench.Host
import FaultPlan.Bench.Program
import FaultPlan.Bench.Shelf
import FaultPlan.Command.Commands
import FaultPlan.Command.Report
import FaultPlan.Command.Stream
import FaultPlan.Command.Summary
import FaultPlan.CommandLine.Invocation
import FaultPlan.CommandLine.Reading
import FaultPlan.CommandLine.Switch
import FaultPlan.Derivation
import FaultPlan.Engine.Arguments
import FaultPlan.Engine.Configuration
import FaultPlan.Engine.Group
import FaultPlan.Failure
import FaultPlan.Files.Access
import FaultPlan.Files.Fault
import FaultPlan.Files.Path
import FaultPlan.Files.Route
import FaultPlan.Files.Scratch
import FaultPlan.Files.Storage
import FaultPlan.Files.Tree
import FaultPlan.Files.Walk
import FaultPlan.Isa
import FaultPlan.Main
import FaultPlan.Memory.Layout
import FaultPlan.Memory.Region
import FaultPlan.NameSet
import FaultPlan.Number.Decimal
import FaultPlan.Number.Digits
import FaultPlan.Number.Hex
import FaultPlan.Options
import FaultPlan.Proofs.Analysis.CpuNames
import FaultPlan.Proofs.Analysis.Endings
import FaultPlan.Proofs.Analysis.Failures
import FaultPlan.Proofs.Analysis.Guarantees
import FaultPlan.Proofs.Analysis.Names
import FaultPlan.Proofs.Analysis.Stages
import FaultPlan.Proofs.Bench.Answers
import FaultPlan.Proofs.Bench.Copying
import FaultPlan.Proofs.Command.Agreement
import FaultPlan.Proofs.Command.Calls
import FaultPlan.Proofs.Command.Deriving
import FaultPlan.Proofs.Command.OptionLines
import FaultPlan.Proofs.Command.PassingOn
import FaultPlan.Proofs.Command.Printing
import FaultPlan.Proofs.Command.Reports
import FaultPlan.Proofs.Command.Running
import FaultPlan.Proofs.Command.Stopping
import FaultPlan.Proofs.Command.Streams
import FaultPlan.Proofs.CommandLine.Arguments
import FaultPlan.Proofs.CommandLine.Loudness
import FaultPlan.Proofs.CommandLine.Progress
import FaultPlan.Proofs.CommandLine.Requests
import FaultPlan.Proofs.Engine.Grammar
import FaultPlan.Proofs.Engine.Reading
import FaultPlan.Proofs.Engine.RoundTrip
import FaultPlan.Proofs.Engine.Words
import FaultPlan.Proofs.Files.Alike
import FaultPlan.Proofs.Files.Frames
import FaultPlan.Proofs.Files.Joining
import FaultPlan.Proofs.Files.Landings
import FaultPlan.Proofs.Files.Making
import FaultPlan.Proofs.Files.Scratch
import FaultPlan.Proofs.Files.Targets
import FaultPlan.Proofs.Files.Walks
import FaultPlan.Proofs.Memory.LastLines
import FaultPlan.Proofs.Number.Hexadecimals
import FaultPlan.Proofs.Number.Numerals
import FaultPlan.Proofs.Number.RoundTrip
import FaultPlan.Proofs.Options.Builder
import FaultPlan.Proofs.Options.Sequences
import FaultPlan.Proofs.Outcomes
import FaultPlan.Proofs.Run.Arguments
import FaultPlan.Proofs.Run.Blobs
import FaultPlan.Proofs.Run.Derived
import FaultPlan.Proofs.Run.FailFast
import FaultPlan.Proofs.Run.Loading
import FaultPlan.Proofs.Run.Namespace
import FaultPlan.Proofs.Run.Sharing
import FaultPlan.Proofs.Run.Staleness
import FaultPlan.Proofs.Section.Clearing
import FaultPlan.Proofs.Section.Displays
import FaultPlan.Proofs.Section.Division
import FaultPlan.Proofs.Section.Extracting
import FaultPlan.Proofs.Section.Listed
import FaultPlan.Proofs.Section.LongPaths
import FaultPlan.Proofs.Section.Positions
import FaultPlan.Proofs.Section.Reaching
import FaultPlan.Proofs.Section.Uniform
import FaultPlan.Proofs.Symbol.Coverage
import FaultPlan.Proofs.Symbol.Discovery
import FaultPlan.Proofs.Symbol.Entries
import FaultPlan.Proofs.Symbol.Monotone
import FaultPlan.Proofs.Symbol.Order
import FaultPlan.Proofs.Symbol.Pass
import FaultPlan.Proofs.Symbol.Ranges
import FaultPlan.Proofs.Symbol.Reordering
import FaultPlan.Proofs.Symbol.Spelling
import FaultPlan.Proofs.Symbol.Survey
import FaultPlan.Proofs.Text.ByteOrder
import FaultPlan.Proofs.Text.Decoding
import FaultPlan.Proofs.Text.Endings
import FaultPlan.Proofs.Text.Items
import FaultPlan.Proofs.Text.Lines
import FaultPlan.Proofs.Text.Patterns
import FaultPlan.Proofs.Text.Words
import FaultPlan.Run
import FaultPlan.Section.Blob
import FaultPlan.Section.Extraction
import FaultPlan.Section.Header
import FaultPlan.Symbol.Survey
import FaultPlan.Symbol.Table
import FaultPlan.Text.Blank
import FaultPlan.Text.Pieces
import FaultPlan.Text.Utf8
import FaultPlan.Toolchain
