import SchemaText.Parse.Session
import SchemaText.Parser
import SchemaText.Proofs.Alternation
import SchemaText.Proofs.ArrangedTree
import SchemaText.Proofs.Attachment
import SchemaText.Proofs.Budget
import SchemaText.Proofs.CircuitBreaker
import SchemaText.Proofs.Completeness
import SchemaText.Proofs.Concatenation
import SchemaText.Proofs.CursorInvariant
import SchemaText.Proofs.EditorPosition
import SchemaText.Proofs.ErrorReport
import SchemaText.Proofs.Extent
import SchemaText.Proofs.Keywords
import SchemaText.Proofs.Locality
import SchemaText.Proofs.Lossless
import SchemaText.Proofs.MaximalMunch
import SchemaText.Proofs.Nesting
import SchemaText.Proofs.OffsetLookup
import SchemaText.Proofs.OrderedChoice
import SchemaText.Proofs.PositionRoundTrip
import SchemaText.Proofs.RoundTrip
import SchemaText.Proofs.SnippetLayout
import SchemaText.Proofs.Splicing
import SchemaText.Proofs.StoredSpans
import SchemaText.Proofs.Threshold
import SchemaText.Proofs.Trace
import SchemaText.Proofs.Traversal
import SchemaText.Proofs.ViablePrefix
import SchemaText.Tree.Lookup
import SchemaText.Tree.Serial
import SchemaText.Tree.Splice
import SchemaText.Tree.Walk
