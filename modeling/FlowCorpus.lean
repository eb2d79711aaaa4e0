import FlowCorpus.Assembly.Alias
import FlowCorpus.Assembly.Disassembly
import FlowCorpus.Assembly.Esil
import FlowCorpus.Assembly.Literal
import FlowCorpus.Assembly.Opcode
import FlowCorpus.Assembly.Register
import FlowCorpus.Batch.CallGraphs
import FlowCorpus.Batch.Corpora
import FlowCorpus.Batch.ForkJoin
import FlowCorpus.Batch.Graphs
import FlowCorpus.Batch.Isolation
import FlowCorpus.Batch.Metadata
import FlowCorpus.Batch.Naming
import FlowCorpus.Batch.Records
import FlowCorpus.Batch.Report
import FlowCorpus.Batch.Summaries
import FlowCorpus.Cli.Console
import FlowCorpus.Cli.Dedup
import FlowCorpus.Cli.Generate
import FlowCorpus.Cli.Literal
import FlowCorpus.Cli.Literal.Token
import FlowCorpus.Cli.Markup
import FlowCorpus.Cli.Program
import FlowCorpus.Cli.Style
import FlowCorpus.Cli.Usage
import FlowCorpus.Config.Environment
import FlowCorpus.Config.Logging
import FlowCorpus.Config.Search
import FlowCorpus.Config.Settings
import FlowCorpus.Dedup.Graph
import FlowCorpus.Dedup.GraphCorpus
import FlowCorpus.Dedup.Record
import FlowCorpus.Dedup.RecordCorpus
import FlowCorpus.Dedup.Statistics
import FlowCorpus.Digest.Sha256
import FlowCorpus.Exchange.Attributed
import FlowCorpus.Exchange.CallTree
import FlowCorpus.Exchange.Multigraph
import FlowCorpus.Fault
import FlowCorpus.Feature.Count
import FlowCorpus.Feature.Instructions
import FlowCorpus.Feature.Metadata
import FlowCorpus.Feature.Model
import FlowCorpus.Feature.Node
import FlowCorpus.Feature.Scheme
import FlowCorpus.Feature.Summary
import FlowCorpus.Feature.Tensor
import FlowCorpus.Graph.AddressIndex
import FlowCorpus.Graph.CallTree
import FlowCorpus.Graph.Flow
import FlowCorpus.Graph.Operation
import FlowCorpus.Graph.Walk
import FlowCorpus.Journal
import FlowCorpus.Json.Basic
import FlowCorpus.Json.Parser
import FlowCorpus.Json.Printer
import FlowCorpus.Main
import FlowCorpus.Number.Binary64
import FlowCorpus.Number.Lenient
import FlowCorpus.Number.Notation
import FlowCorpus.Number.Numeral
import FlowCorpus.Number.Shortest
import FlowCorpus.Program.Address
import FlowCorpus.Program.CallRecord
import FlowCorpus.Program.Function
import FlowCorpus.Program.Reader
import FlowCorpus.Proofs.Assembly.Disassembly
import FlowCorpus.Proofs.Assembly.Esil
import FlowCorpus.Proofs.Assembly.Literal
import FlowCorpus.Proofs.Assembly.Mask
import FlowCorpus.Proofs.Assembly.Operand
import FlowCorpus.Proofs.Assembly.Places
import FlowCorpus.Proofs.Assembly.Register
import FlowCorpus.Proofs.Assembly.Shape
import FlowCorpus.Proofs.Batch.Accounting
import FlowCorpus.Proofs.Batch.Attempts
import FlowCorpus.Proofs.Batch.Completion
import FlowCorpus.Proofs.Batch.ForkJoin
import FlowCorpus.Proofs.Batch.Generators
import FlowCorpus.Proofs.Batch.Interleaving
import FlowCorpus.Proofs.Batch.Layouts
import FlowCorpus.Proofs.Batch.Naming
import FlowCorpus.Proofs.Batch.Output
import FlowCorpus.Proofs.Batch.Records
import FlowCorpus.Proofs.Batch.Rerun
import FlowCorpus.Proofs.Batch.Tasks
import FlowCorpus.Proofs.Config.Interpolation
import FlowCorpus.Proofs.Dedup.Again
import FlowCorpus.Proofs.Dedup.Firsts
import FlowCorpus.Proofs.Dedup.GraphCorpus
import FlowCorpus.Proofs.Dedup.Graphs
import FlowCorpus.Proofs.Dedup.Grouping
import FlowCorpus.Proofs.Dedup.LeftOut
import FlowCorpus.Proofs.Dedup.OnePass
import FlowCorpus.Proofs.Dedup.Partition
import FlowCorpus.Proofs.Dedup.Records
import FlowCorpus.Proofs.Dedup.Sequence
import FlowCorpus.Proofs.Dedup.Stems
import FlowCorpus.Proofs.Dedup.Survivors
import FlowCorpus.Proofs.Digest.Utf8
import FlowCorpus.Proofs.Exchange.Alignment
import FlowCorpus.Proofs.Exchange.CallTree
import FlowCorpus.Proofs.Exchange.Entries
import FlowCorpus.Proofs.Exchange.Label
import FlowCorpus.Proofs.Exchange.Multigraph
import FlowCorpus.Proofs.Exchange.Ranges
import FlowCorpus.Proofs.Exchange.Reading
import FlowCorpus.Proofs.Exchange.Relocation
import FlowCorpus.Proofs.Exchange.RoundTrip
import FlowCorpus.Proofs.Feature.Additivity
import FlowCorpus.Proofs.Feature.Agreement
import FlowCorpus.Proofs.Feature.Corpora
import FlowCorpus.Proofs.Feature.Offspring
import FlowCorpus.Proofs.Feature.Walks
import FlowCorpus.Proofs.Graph.CallTree
import FlowCorpus.Proofs.Graph.DepthFirst
import FlowCorpus.Proofs.Graph.History
import FlowCorpus.Proofs.Graph.Numbering
import FlowCorpus.Proofs.Graph.Relocation
import FlowCorpus.Proofs.Graph.Transfer
import FlowCorpus.Proofs.Journal
import FlowCorpus.Proofs.Json.Ascii
import FlowCorpus.Proofs.Json.Canonical
import FlowCorpus.Proofs.Json.Decodable
import FlowCorpus.Proofs.Json.Fields
import FlowCorpus.Proofs.Json.Grammar
import FlowCorpus.Proofs.Json.Locality
import FlowCorpus.Proofs.Json.Numeral
import FlowCorpus.Proofs.Json.RoundTrip
import FlowCorpus.Proofs.Json.Text
import FlowCorpus.Proofs.Number.Characters
import FlowCorpus.Proofs.Number.Digits
import FlowCorpus.Proofs.Number.Exact
import FlowCorpus.Proofs.Number.Notation
import FlowCorpus.Proofs.Number.Rounding
import FlowCorpus.Proofs.Number.Shortest
import FlowCorpus.Proofs.Number.Written
import FlowCorpus.Proofs.Outcome
import FlowCorpus.Proofs.Program.Acceptance
import FlowCorpus.Proofs.Program.Address
import FlowCorpus.Proofs.Program.Reading
import FlowCorpus.Proofs.Program.Refusal
import FlowCorpus.Proofs.Storage.Effect
import FlowCorpus.Proofs.Storage.Extension
import FlowCorpus.Proofs.Storage.Fresh
import FlowCorpus.Proofs.Storage.Growth
import FlowCorpus.Proofs.Storage.Job
import FlowCorpus.Proofs.Storage.Listing
import FlowCorpus.Proofs.Storage.Placement
import FlowCorpus.Proofs.Storage.Preparation
import FlowCorpus.Proofs.Storage.Region
import FlowCorpus.Proofs.Storage.Turns
import FlowCorpus.Proofs.Storage.Written
import FlowCorpus.Proofs.Text.Parts
import FlowCorpus.Proofs.Text.Pieces
import FlowCorpus.Proofs.Text.Runs
import FlowCorpus.Proofs.Text.Shape
import FlowCorpus.Proofs.Text.Substitution
import FlowCorpus.Schema.Datum
import FlowCorpus.Schema.Field
import FlowCorpus.Schema.Misfit
import FlowCorpus.Storage.Path
import FlowCorpus.Storage.Tree
import FlowCorpus.Storage.Workspace
import FlowCorpus.Text.Base64
import FlowCorpus.Text.Blank
import FlowCorpus.Text.Case
import FlowCorpus.Text.Digit
import FlowCorpus.Text.Lines
import FlowCorpus.Text.Loose
import FlowCorpus.Text.Printable
import FlowCorpus.Text.Quoted
import FlowCorpus.Text.Split
import FlowCorpus.Text.Substitute
import FlowCorpus.Text.Word
import FlowCorpus.Yaml.Document
import FlowCorpus.Yaml.Merge
import FlowCorpus.Yaml.Node
import FlowCorpus.Yaml.Node.Reader
import FlowCorpus.Yaml.Problem
import FlowCorpus.Yaml.Scalar
import FlowCorpus.Yaml.Source
import FlowCorpus.Yaml.Tag
import FlowCorpus.Yaml.Timestamp
import FlowCorpus.Yaml.Token
import FlowCorpus.Yaml.Token.Block
import FlowCorpus.Yaml.Token.Lexer
import FlowCorpus.Yaml.Token.Plain
import FlowCorpus.Yaml.Token.Property
import FlowCorpus.Yaml.Token.Quoted
