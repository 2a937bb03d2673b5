import ClassPrune.AccessFlags
import ClassPrune.Attribute.Annotations
import ClassPrune.Attribute.Basic
import ClassPrune.Attribute.Body
import ClassPrune.Attribute.Kind
import ClassPrune.Attribute.Rows
import ClassPrune.Attribute.StackMap
import ClassPrune.Bytes
import ClassPrune.Class.Basic
import ClassPrune.Class.Holder
import ClassPrune.Class.Reading
import ClassPrune.Class.Writing
import ClassPrune.Code.Decoding
import ClassPrune.Code.Instruction
import ClassPrune.Code.Listing
import ClassPrune.Code.Opcode
import ClassPrune.Code.Profile
import ClassPrune.Code.Standard
import ClassPrune.Code.Store
import ClassPrune.Code.Walk
import ClassPrune.Codec
import ClassPrune.Command.Arguments
import ClassPrune.Command.Basic
import ClassPrune.Decimal.Floating
import ClassPrune.Decimal.Shortest
import ClassPrune.Descriptor
import ClassPrune.Digest.Blake3
import ClassPrune.Dump.Describe
import ClassPrune.Dump.Document
import ClassPrune.Dump.Lines
import ClassPrune.Fault
import ClassPrune.FileTree
import ClassPrune.Main
import ClassPrune.Pool.Basic
import ClassPrune.Pool.Entry
import ClassPrune.Pool.Linking
import ClassPrune.Pool.Lookup
import ClassPrune.Pool.Reachable
import ClassPrune.Pool.Table
import ClassPrune.Pool.Tag
import ClassPrune.Pool.Writing
import ClassPrune.Proofs.Attribute.Annotations
import ClassPrune.Proofs.Attribute.Canonical
import ClassPrune.Proofs.Attribute.Decoding
import ClassPrune.Proofs.Attribute.Frames
import ClassPrune.Proofs.Attribute.Leaf
import ClassPrune.Proofs.Attribute.Payload
import ClassPrune.Proofs.Attribute.StackMaps
import ClassPrune.Proofs.Attribute.Table
import ClassPrune.Proofs.Attribute.Values
import ClassPrune.Proofs.Bytes
import ClassPrune.Proofs.Class.Delimited
import ClassPrune.Proofs.Class.Faithful
import ClassPrune.Proofs.Class.Faults
import ClassPrune.Proofs.Class.Holder
import ClassPrune.Proofs.Class.Lossless
import ClassPrune.Proofs.Class.Payloads
import ClassPrune.Proofs.Class.RoundTrip
import ClassPrune.Proofs.Class.Size
import ClassPrune.Proofs.Code.Canonical
import ClassPrune.Proofs.Code.Instruction
import ClassPrune.Proofs.Code.Listing
import ClassPrune.Proofs.Code.Offsets
import ClassPrune.Proofs.Code.Prefixes
import ClassPrune.Proofs.Code.Reading
import ClassPrune.Proofs.Code.Reencoding
import ClassPrune.Proofs.Code.Standard
import ClassPrune.Proofs.Code.Store
import ClassPrune.Proofs.Code.Traces
import ClassPrune.Proofs.Code.Walk
import ClassPrune.Proofs.Codec
import ClassPrune.Proofs.Command.Check
import ClassPrune.Proofs.Descriptor
import ClassPrune.Proofs.Dump.Agreement
import ClassPrune.Proofs.Dump.Records
import ClassPrune.Proofs.FileTree
import ClassPrune.Proofs.Pool.Entry
import ClassPrune.Proofs.Pool.Filling
import ClassPrune.Proofs.Pool.History
import ClassPrune.Proofs.Pool.Likeness
import ClassPrune.Proofs.Pool.Lookup
import ClassPrune.Proofs.Pool.Reachable
import ClassPrune.Proofs.Pool.Resolution
import ClassPrune.Proofs.Pool.RoundTrip
import ClassPrune.Proofs.Pool.Table
import ClassPrune.Proofs.Pool.WellFormed
import ClassPrune.Proofs.Pool.Writing
import ClassPrune.Proofs.Strip.Accounting
import ClassPrune.Proofs.Strip.Bootstrap
import ClassPrune.Proofs.Strip.Clean
import ClassPrune.Proofs.Strip.CompactLoads
import ClassPrune.Proofs.Strip.Frame
import ClassPrune.Proofs.Strip.Lawful
import ClassPrune.Proofs.Strip.Levels
import ClassPrune.Proofs.Strip.Locality
import ClassPrune.Proofs.Strip.Reach
import ClassPrune.Proofs.Strip.Report
import ClassPrune.Proofs.Strip.Requirement
import ClassPrune.Proofs.Strip.Settled
import ClassPrune.Proofs.Strip.Sifting
import ClassPrune.Proofs.Strip.Substitutions
import ClassPrune.Proofs.Strip.Verdict
import ClassPrune.Proofs.Text.ModifiedUtf8
import ClassPrune.Proofs.Text.Newlines
import ClassPrune.Reader
import ClassPrune.Settings
import ClassPrune.Strip.Basic
import ClassPrune.Strip.Demand
import ClassPrune.Strip.Reach
import ClassPrune.Strip.Report
import ClassPrune.Strip.Sifting
import ClassPrune.Strip.Verdict
import ClassPrune.Strip.Violation
import ClassPrune.Text.Hex
import ClassPrune.Text.Json
import ClassPrune.Text.ModifiedUtf8
import ClassPrune.Text.Printable
import ClassPrune.Text.Quoted
import ClassPrune.Toml.Document
import ClassPrune.Toml.Quoted
import ClassPrune.Toml.Scalar
import ClassPrune.Toml.Scan
import ClassPrune.Toml.Statement
