import SurfaceFeed.Main
import SurfaceFeed.Proofs.Chunking
import SurfaceFeed.Proofs.Json.Grammar
import SurfaceFeed.Proofs.Json.Reading
import SurfaceFeed.Proofs.Scanner.Documents
import SurfaceFeed.Proofs.Scanner.Lists
import SurfaceFeed.Proofs.Batch
import SurfaceFeed.Proofs.Text.Utf8
import SurfaceFeed.Proofs.Json.Encoded
import SurfaceFeed.Proofs.Scanner.Lexical
import SurfaceFeed.Proofs.Candidates
import SurfaceFeed.Proofs.Remainder
import SurfaceFeed.Proofs.Truncation
import SurfaceFeed.Proofs.Scanner.Quiet
import SurfaceFeed.Proofs.Endings
import SurfaceFeed.Proofs.LoneObject
import SurfaceFeed.Proofs.Isolation
import SurfaceFeed.Proofs.ChunkEnds
import SurfaceFeed.Proofs.Json.Printed
import SurfaceFeed.Proofs.BareDocuments
import SurfaceFeed.Proofs.EventLog
import SurfaceFeed.Proofs.History
import SurfaceFeed.Proofs.Fields
import SurfaceFeed.Proofs.Decimal
import SurfaceFeed.Proofs.Value
import SurfaceFeed.Proofs.Message.Stored
import SurfaceFeed.Proofs.Message.Decoded
import SurfaceFeed.Proofs.Message.RoundTrip
import SurfaceFeed.Proofs.Prose
import SurfaceFeed.Proofs.Traffic
import SurfaceFeed.Proofs.Path
import SurfaceFeed.Proofs.ReadBack
import SurfaceFeed.Proofs.Pointer
import SurfaceFeed.Proofs.Placeholder
import SurfaceFeed.Proofs.Render.Expansion
import SurfaceFeed.Proofs.Text.Occurrence
import SurfaceFeed.Proofs.Render.Binding
import SurfaceFeed.Proofs.Frame
import SurfaceFeed.Proofs.WriteOrder
import SurfaceFeed.Proofs.Removal
import SurfaceFeed.Proofs.PointerText
import SurfaceFeed.Proofs.Surroundings
import SurfaceFeed.Proofs.Substitution
import SurfaceFeed.Proofs.Text.Replacement
import SurfaceFeed.Proofs.Render.Hygiene
import SurfaceFeed.Proofs.Message.Schema
import SurfaceFeed.Proofs.Configuration
import SurfaceFeed.Proofs.Visibility
import SurfaceFeed.Proofs.Rounding
import SurfaceFeed.Proofs.Comparison
import SurfaceFeed.Proofs.Sums
import SurfaceFeed.Proofs.Aggregates
import SurfaceFeed.Proofs.NumericEquality
import SurfaceFeed.Proofs.Nearest
import SurfaceFeed.Proofs.Conversion
import SurfaceFeed.Proofs.Text.Lines
import SurfaceFeed.Proofs.Render.Outline
import SurfaceFeed.Proofs.Scanner.Buffer
import SurfaceFeed.Proofs.Scanner.Retained
import SurfaceFeed.Proofs.Render.Depth
import SurfaceFeed.Proofs.Text.Offsets
import SurfaceFeed.Proofs.FieldSearch
