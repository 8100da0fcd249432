import ModuleStubs.Annotation.Function
import ModuleStubs.Annotation.Module
import ModuleStubs.Arguments
import ModuleStubs.Bench.Coverage
import ModuleStubs.Bench.Profile
import ModuleStubs.Bench.Result
import ModuleStubs.Bench.Round
import ModuleStubs.Bench.SelfCheck
import ModuleStubs.Bench.Status
import ModuleStubs.Bench.Suite
import ModuleStubs.CType.Annotated
import ModuleStubs.CType.Basic
import ModuleStubs.CType.Context
import ModuleStubs.CType.SelfCheck
import ModuleStubs.Command
import ModuleStubs.Console
import ModuleStubs.Digest
import ModuleStubs.Extract.DocTree
import ModuleStubs.Extract.Docstring
import ModuleStubs.Extract.Events
import ModuleStubs.Extract.Object
import ModuleStubs.Extract.Report
import ModuleStubs.Extract.Retrieval
import ModuleStubs.Fault
import ModuleStubs.Files
import ModuleStubs.Json.Access
import ModuleStubs.Json.Basic
import ModuleStubs.Json.Numeral
import ModuleStubs.Json.Reader
import ModuleStubs.Json.Writer
import ModuleStubs.Main
import ModuleStubs.Number.Binary64
import ModuleStubs.Number.Decimal
import ModuleStubs.Number.Layout
import ModuleStubs.Number.Shortest
import ModuleStubs.Pattern.Basic
import ModuleStubs.Pattern.Matching
import ModuleStubs.Pattern.Parser
import ModuleStubs.Progress
import ModuleStubs.Proofs.Annotation.Candidates
import ModuleStubs.Proofs.Annotation.Completed
import ModuleStubs.Proofs.Annotation.Frame
import ModuleStubs.Proofs.Annotation.Functions
import ModuleStubs.Proofs.Annotation.MemberOrder
import ModuleStubs.Proofs.Annotation.Rearrangement
import ModuleStubs.Proofs.Annotation.Restorable
import ModuleStubs.Proofs.Annotation.Skeleton
import ModuleStubs.Proofs.Annotation.Unconfigured
import ModuleStubs.Proofs.Annotation.Unused
import ModuleStubs.Proofs.Annotation.Verbosity
import ModuleStubs.Proofs.Annotation.Warnings
import ModuleStubs.Proofs.Bench.Fingerprints
import ModuleStubs.Proofs.Bench.Pieces
import ModuleStubs.Proofs.Bench.Rounds
import ModuleStubs.Proofs.Bench.Verdicts
import ModuleStubs.Proofs.CType.Clean
import ModuleStubs.Proofs.CType.Complete
import ModuleStubs.Proofs.CType.Origins
import ModuleStubs.Proofs.CType.Plain
import ModuleStubs.Proofs.Command.Composition
import ModuleStubs.Proofs.Command.Opening
import ModuleStubs.Proofs.Command.Overwriting
import ModuleStubs.Proofs.Completion
import ModuleStubs.Proofs.Extract.Accepted
import ModuleStubs.Proofs.Extract.Depth
import ModuleStubs.Proofs.Extract.Log
import ModuleStubs.Proofs.Extract.Region
import ModuleStubs.Proofs.Extract.Walk
import ModuleStubs.Proofs.Grammar.Basic
import ModuleStubs.Proofs.Grammar.Reading
import ModuleStubs.Proofs.Grammar.Tokens
import ModuleStubs.Proofs.Json.Canonical
import ModuleStubs.Proofs.Json.Documents
import ModuleStubs.Proofs.Json.Fields
import ModuleStubs.Proofs.Json.RoundTrip
import ModuleStubs.Proofs.Literal
import ModuleStubs.Proofs.Number.Layout
import ModuleStubs.Proofs.Number.Nearest
import ModuleStubs.Proofs.Parameters
import ModuleStubs.Proofs.Pattern.Captures
import ModuleStubs.Proofs.Records
import ModuleStubs.Proofs.Signature.Arguments
import ModuleStubs.Proofs.Signature.Declaration
import ModuleStubs.Proofs.Signature.Known
import ModuleStubs.Proofs.Signature.LastPair
import ModuleStubs.Proofs.Signature.Names
import ModuleStubs.Proofs.Signature.Naming
import ModuleStubs.Proofs.Signature.Numbered
import ModuleStubs.Proofs.Signature.Parentheses
import ModuleStubs.Proofs.Signature.Positions
import ModuleStubs.Proofs.Signature.Scalar
import ModuleStubs.Proofs.Signature.Spellings
import ModuleStubs.Proofs.Signature.Splitting
import ModuleStubs.Proofs.Signature.Total
import ModuleStubs.Proofs.Signature.TypeAndName
import ModuleStubs.Proofs.Stub.Account
import ModuleStubs.Proofs.Stub.Bodies
import ModuleStubs.Proofs.Stub.Comment
import ModuleStubs.Proofs.Stub.Constants
import ModuleStubs.Proofs.Stub.Docstrings
import ModuleStubs.Proofs.Stub.Encodable
import ModuleStubs.Proofs.Stub.Indentation
import ModuleStubs.Proofs.Stub.Shown
import ModuleStubs.Proofs.Stub.Visits
import ModuleStubs.Proofs.Text.Cut
import ModuleStubs.Proofs.Text.Lines
import ModuleStubs.Proofs.Text.Utf8
import ModuleStubs.Proofs.TypeComment
import ModuleStubs.Proofs.Wire.ChunkLines
import ModuleStubs.Proofs.Wire.Chunks
import ModuleStubs.Proofs.Wire.Circular
import ModuleStubs.Proofs.Wire.Cursor
import ModuleStubs.Proofs.Wire.Delimiters
import ModuleStubs.Proofs.Wire.Documents
import ModuleStubs.Proofs.Wire.Escapes
import ModuleStubs.Proofs.Wire.Faults
import ModuleStubs.Proofs.Wire.Floats
import ModuleStubs.Proofs.Wire.Grammar
import ModuleStubs.Proofs.Wire.Keys
import ModuleStubs.Proofs.Wire.Locality
import ModuleStubs.Proofs.Wire.Longest
import ModuleStubs.Proofs.Wire.Nesting
import ModuleStubs.Proofs.Wire.Positions
import ModuleStubs.Proofs.Wire.RawStrings
import ModuleStubs.Proofs.Wire.RoundTrip
import ModuleStubs.Proofs.Wire.Scalars
import ModuleStubs.Proofs.Wire.Scanning
import ModuleStubs.Proofs.Wire.SkippedKeys
import ModuleStubs.Proofs.Wire.Unclosed
import ModuleStubs.Proofs.Writable
import ModuleStubs.Record
import ModuleStubs.Signature.Basic
import ModuleStubs.Signature.Override
import ModuleStubs.Signature.Parser
import ModuleStubs.Signature.Rough
import ModuleStubs.Stub.Lines
import ModuleStubs.Stub.Module
import ModuleStubs.Template
import ModuleStubs.Text.Basic
import ModuleStubs.Text.Blank
import ModuleStubs.Text.Column
import ModuleStubs.Text.Lines
import ModuleStubs.Text.Printable
import ModuleStubs.Text.Quoted
import ModuleStubs.Text.Utf8
import ModuleStubs.Text.Word
import ModuleStubs.Trace
import ModuleStubs.Wire.Cursor
import ModuleStubs.Wire.Datum
import ModuleStubs.Wire.Position
import ModuleStubs.Wire.Reader
import ModuleStubs.Wire.Token
import ModuleStubs.Wire.Writer
