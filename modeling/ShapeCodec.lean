import ShapeCodec.Files.Tree
import ShapeCodec.Main
import ShapeCodec.Proofs.Calls
import ShapeCodec.Proofs.RoundTrip
import ShapeCodec.Typed.Records
import ShapeCodec.Proofs.Code
import ShapeCodec.Proofs.Independence
import ShapeCodec.Proofs.Requests
import ShapeCodec.Proofs.Json.Grammar
import ShapeCodec.Proofs.Json.Parsing
import ShapeCodec.Proofs.Direct.JsonReading
import ShapeCodec.Proofs.PlainJson
import ShapeCodec.Proofs.WireJson
import ShapeCodec.Proofs.Size
import ShapeCodec.Proofs.Stubs
import ShapeCodec.Proofs.Conversion
import ShapeCodec.Proofs.Locality
import ShapeCodec.Proofs.Direct.Delimiting
import ShapeCodec.Proofs.Direct.Failure
import ShapeCodec.Proofs.Truncation
import ShapeCodec.Proofs.TypedRoundTrip
import ShapeCodec.Proofs.EntryPoint
import ShapeCodec.Proofs.Checked.Bytes
import ShapeCodec.Proofs.Checked.Scan
import ShapeCodec.Proofs.Checked.Skipping
import ShapeCodec.Proofs.Dispatch
import ShapeCodec.Proofs.Checked.Read
import ShapeCodec.Proofs.Checked.Write
import ShapeCodec.Proofs.Safety
import ShapeCodec.Proofs.Ending
import ShapeCodec.Proofs.Written
import ShapeCodec.Proofs.Omission
import ShapeCodec.Proofs.Loading
import ShapeCodec.Proofs.Expression
import ShapeCodec.Proofs.Naming
import ShapeCodec.Proofs.Inert
import ShapeCodec.Proofs.Canonical
import ShapeCodec.Proofs.Framing
import ShapeCodec.Proofs.Dropping
import ShapeCodec.Proofs.Members
import ShapeCodec.Proofs.JsonRoundTrip
import ShapeCodec.Proofs.Cycles
import ShapeCodec.Proofs.Checked.Expression
import ShapeCodec.Proofs.Denotation
import ShapeCodec.Proofs.Brackets
import ShapeCodec.Proofs.Descent
import ShapeCodec.Proofs.Depth
import ShapeCodec.Proofs.Declaring
import ShapeCodec.Proofs.Merging
import ShapeCodec.Proofs.Encoding
import ShapeCodec.Proofs.Integer
import ShapeCodec.Proofs.Progress
