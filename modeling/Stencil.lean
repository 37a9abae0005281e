import Stencil.Argument
import Stencil.Bindings
import Stencil.Config
import Stencil.Extraction
import Stencil.Failure
import Stencil.Fields
import Stencil.Heap
import Stencil.Heap.Copy
import Stencil.Heap.Document
import Stencil.Heap.Equality
import Stencil.Heap.Rendering
import Stencil.Json
import Stencil.Json.Parser
import Stencil.Json.Printer
import Stencil.Json.Text
import Stencil.Loop
import Stencil.Number
import Stencil.Number.Binary64
import Stencil.Number.Decimal
import Stencil.Number.Numeral
import Stencil.Number.Scaling
import Stencil.Pipe
import Stencil.Placeholder
import Stencil.Procedure
import Stencil.Proofs.Argument
import Stencil.Proofs.Cell
import Stencil.Proofs.Config
import Stencil.Proofs.Confinement
import Stencil.Proofs.Discovery.Coverage
import Stencil.Proofs.Discovery.Exactness
import Stencil.Proofs.Discovery.Recursion
import Stencil.Proofs.Extraction.Confinement
import Stencil.Proofs.Extraction.Lookup
import Stencil.Proofs.Extraction.MergeLaw
import Stencil.Proofs.Extraction.Reading
import Stencil.Proofs.Fields
import Stencil.Proofs.Heap.Addressing
import Stencil.Proofs.Heap.Building
import Stencil.Proofs.Heap.Comparison
import Stencil.Proofs.Heap.Conversion
import Stencil.Proofs.Heap.Copy
import Stencil.Proofs.Heap.Copying
import Stencil.Proofs.Heap.CutTree
import Stencil.Proofs.Heap.Descent
import Stencil.Proofs.Heap.Equality
import Stencil.Proofs.Heap.FreshCopy
import Stencil.Proofs.Heap.Observation
import Stencil.Proofs.Heap.Offence
import Stencil.Proofs.Heap.PathWriting
import Stencil.Proofs.Heap.Rebuilding
import Stencil.Proofs.Heap.Region
import Stencil.Proofs.Heap.Replacement
import Stencil.Proofs.Heap.Route
import Stencil.Proofs.Heap.SameDocument
import Stencil.Proofs.Heap.Skeleton
import Stencil.Proofs.Heap.Slot
import Stencil.Proofs.Heap.Tree
import Stencil.Proofs.Heap.Unfolding
import Stencil.Proofs.Heap.Window
import Stencil.Proofs.Heap.Writing
import Stencil.Proofs.Json.RoundTrip
import Stencil.Proofs.Json.Text
import Stencil.Proofs.Json.Tokens
import Stencil.Proofs.Number.Numeral
import Stencil.Proofs.Number.Position
import Stencil.Proofs.Number.Value
import Stencil.Proofs.Pipe.Agreement
import Stencil.Proofs.Pipe.Bound
import Stencil.Proofs.Pipe.CallableFree
import Stencil.Proofs.Pipe.Calls
import Stencil.Proofs.Pipe.Composition
import Stencil.Proofs.Pipe.Course
import Stencil.Proofs.Pipe.FilledCopy
import Stencil.Proofs.Pipe.Filling
import Stencil.Proofs.Pipe.Frame
import Stencil.Proofs.Pipe.Image
import Stencil.Proofs.Pipe.Isolation
import Stencil.Proofs.Pipe.Likeness
import Stencil.Proofs.Pipe.Naming
import Stencil.Proofs.Pipe.Preparation
import Stencil.Proofs.Pipe.Projection
import Stencil.Proofs.Pipe.Rearrangement
import Stencil.Proofs.Pipe.Uniformity
import Stencil.Proofs.Pipe.Unsharing
import Stencil.Proofs.Segment
import Stencil.Proofs.Text.Escaping
import Stencil.Proofs.Text.Quoting
import Stencil.Routine
import Stencil.Segment
import Stencil.Text.Escaped
import Stencil.Text.Printable
import Stencil.Text.Quoted
import Stencil.Unvisited
import Stencil.Value
