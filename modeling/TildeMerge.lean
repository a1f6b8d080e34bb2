import TildeMerge.Command.Args
import TildeMerge.Command.Exit
import TildeMerge.Command.Run
import TildeMerge.Command.Usage
import TildeMerge.Data.Insertion
import TildeMerge.Data.Record
import TildeMerge.Data.Value
import TildeMerge.Error
import TildeMerge.Files.Access
import TildeMerge.Files.FileSystem
import TildeMerge.Files.Operations
import TildeMerge.Files.Path
import TildeMerge.Json.Number
import TildeMerge.Json.Reader
import TildeMerge.Json.Token
import TildeMerge.Json.Writer
import TildeMerge.Log
import TildeMerge.Logged
import TildeMerge.Main
import TildeMerge.Markup.Block
import TildeMerge.Markup.Leftover
import TildeMerge.Markup.Placeholder
import TildeMerge.Markup.Runs
import TildeMerge.Number.Binary64
import TildeMerge.Number.Digit
import TildeMerge.Number.Layout
import TildeMerge.Number.Numeral
import TildeMerge.Number.Shortest
import TildeMerge.Proofs.Command.Constraints
import TildeMerge.Proofs.Command.FailedRun
import TildeMerge.Proofs.Command.Interleavings
import TildeMerge.Proofs.Command.Items
import TildeMerge.Proofs.Command.Phases
import TildeMerge.Proofs.Command.RecordSource
import TildeMerge.Proofs.Command.Sinks
import TildeMerge.Proofs.Composition
import TildeMerge.Proofs.Cutting
import TildeMerge.Proofs.DamagedBytes
import TildeMerge.Proofs.DirectiveTable
import TildeMerge.Proofs.Dispatch
import TildeMerge.Proofs.Document.Basic
import TildeMerge.Proofs.Document.Filling
import TildeMerge.Proofs.Document.Rendering
import TildeMerge.Proofs.Failures
import TildeMerge.Proofs.Files.Appending
import TildeMerge.Proofs.Files.Components
import TildeMerge.Proofs.Files.Directories
import TildeMerge.Proofs.Files.Histories
import TildeMerge.Proofs.Files.Joining
import TildeMerge.Proofs.Files.Parents
import TildeMerge.Proofs.Files.Places
import TildeMerge.Proofs.Files.Storing
import TildeMerge.Proofs.Files.Writing
import TildeMerge.Proofs.Finished
import TildeMerge.Proofs.Flattening
import TildeMerge.Proofs.InsertedData
import TildeMerge.Proofs.Json.Integers
import TildeMerge.Proofs.Json.RoundTrip
import TildeMerge.Proofs.Json.Spacing
import TildeMerge.Proofs.Json.Tokens
import TildeMerge.Proofs.LineEnds
import TildeMerge.Proofs.Markup.Cuts
import TildeMerge.Proofs.Markup.DottedRuns
import TildeMerge.Proofs.Markup.Gaps
import TildeMerge.Proofs.Markup.Heads
import TildeMerge.Proofs.Markup.Insertion
import TildeMerge.Proofs.Markup.LeftoverLines
import TildeMerge.Proofs.Markup.LineEnds
import TildeMerge.Proofs.Markup.Markers
import TildeMerge.Proofs.Markup.Pieces
import TildeMerge.Proofs.Markup.Positions
import TildeMerge.Proofs.Markup.Ranges
import TildeMerge.Proofs.Markup.RegionLines
import TildeMerge.Proofs.Markup.Regions
import TildeMerge.Proofs.Markup.ScalarGrammar
import TildeMerge.Proofs.Markup.Sections
import TildeMerge.Proofs.Markup.Shapes
import TildeMerge.Proofs.Markup.Spellings
import TildeMerge.Proofs.Markup.Tails
import TildeMerge.Proofs.Markup.Tokens
import TildeMerge.Proofs.NamedData
import TildeMerge.Proofs.NestedRecords
import TildeMerge.Proofs.OutputNames
import TildeMerge.Proofs.OutputPath
import TildeMerge.Proofs.Passes
import TildeMerge.Proofs.Reassembly
import TildeMerge.Proofs.Registration
import TildeMerge.Proofs.Repetition
import TildeMerge.Proofs.Replacement
import TildeMerge.Proofs.Results
import TildeMerge.Proofs.Splicing
import TildeMerge.Proofs.Strictness
import TildeMerge.Proofs.Text.Boundaries
import TildeMerge.Proofs.Text.Decoding
import TildeMerge.Proofs.Text.LineEnds
import TildeMerge.Proofs.Text.LineNumbers
import TildeMerge.Proofs.Text.Lines
import TildeMerge.Proofs.Text.Offsets
import TildeMerge.Proofs.Text.Subparts
import TildeMerge.Proofs.UnclosedBlocks
import TildeMerge.Proofs.Warnings
import TildeMerge.Proofs.Yaml.FramedBlocks
import TildeMerge.Proofs.Yaml.FramedQuotes
import TildeMerge.Proofs.Yaml.FramedScalars
import TildeMerge.Proofs.Yaml.FramedTags
import TildeMerge.Proofs.Yaml.FramedText
import TildeMerge.Proofs.Yaml.FramedTokens
import TildeMerge.Proofs.Yaml.Frames
import TildeMerge.Render.Directive
import TildeMerge.Render.Engine
import TildeMerge.Render.Options
import TildeMerge.Render.OutputPath
import TildeMerge.Render.Splice
import TildeMerge.Text.Basic
import TildeMerge.Text.Blank
import TildeMerge.Text.Encoding
import TildeMerge.Text.Mark
import TildeMerge.Text.Plain
import TildeMerge.Text.Unassigned
import TildeMerge.Text.Utf16
import TildeMerge.Text.Utf8
import TildeMerge.Text.Visible
import TildeMerge.Yaml.Cursor
import TildeMerge.Yaml.Lexer
import TildeMerge.Yaml.Node
import TildeMerge.Yaml.Reader
import TildeMerge.Yaml.Scalar
import TildeMerge.Yaml.Token
