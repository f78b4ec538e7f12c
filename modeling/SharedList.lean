import SharedList.Chain.Access
import SharedList.Chain.Append
import SharedList.Chain.Assoc
import SharedList.Chain.Basic
import SharedList.Chain.Cursor
import SharedList.Chain.Fold
import SharedList.Chain.Hash
import SharedList.Chain.Map
import SharedList.Chain.Order
import SharedList.Chain.Search
import SharedList.Chain.Shuffle
import SharedList.Chain.Sort
import SharedList.Chain.Split
import SharedList.Chain.Text
import SharedList.Double
import SharedList.Draft
import SharedList.Expr
import SharedList.Json.Basic
import SharedList.Json.Reader
import SharedList.Json.Writer
import SharedList.Label
import SharedList.Serial.Basic
import SharedList.Serial.Codec
import SharedList.Serial.Source
import SharedList.Session.Association
import SharedList.Session.Closure
import SharedList.Session.Command
import SharedList.Session.Creation
import SharedList.Session.Drafting
import SharedList.Session.Exchange
import SharedList.Session.Kind
import SharedList.Session.Outcome
import SharedList.Session.Pairing
import SharedList.Session.Program
import SharedList.Session.Reading
import SharedList.Session.Register
import SharedList.Session.Reshaping
import SharedList.Session.Run
import SharedList.Session.Traversal
import SharedList.Text.Decimal
import SharedList.Text.DecimalReader
import SharedList.Text.Digest
import SharedList.Text.Glyph
import SharedList.Text.Quoted
import SharedList.Text.Style
import SharedList.Trace
import SharedList.Value.Basic
import SharedList.Value.Order
import SharedList.Value.Text
import SharedList.Proofs.Growth
import SharedList.Proofs.MergeSort
import SharedList.Proofs.Joining
import SharedList.Proofs.Appending
import SharedList.Proofs.Associating
import SharedList.Proofs.Nesting
import SharedList.Proofs.TotalOrder
import SharedList.Proofs.PartialOrder
import SharedList.Proofs.World
import SharedList.Proofs.Honesty
import SharedList.Proofs.Ensures
import SharedList.Proofs.Making
import SharedList.Proofs.Calling
import SharedList.Proofs.Commands
import SharedList.Proofs.Steps
import SharedList.Proofs.Readers
import SharedList.Proofs.Workspace
import SharedList.Proofs.Runs
import SharedList.Proofs.Stability
import SharedList.Proofs.Sorting
import SharedList.Proofs.Hashing
import SharedList.Proofs.Traversing
import SharedList.Proofs.Freshness
import SharedList.Proofs.Deciding
import SharedList.Proofs.Cursors
import SharedList.Proofs.Building
import SharedList.Proofs.RoundTrips
import SharedList.Proofs.Folding
import SharedList.Proofs.Matching
import SharedList.Proofs.Erasing
import SharedList.Proofs.Rolling
import SharedList.Proofs.Shuffling
import SharedList.Proofs.Cutting
import SharedList.Proofs.Comparing
import SharedList.Proofs.Sources
import SharedList.Proofs.Reversing
import SharedList.Proofs.Positions
import SharedList.Proofs.Zipping
import SharedList.Proofs.Counters
import SharedList.Proofs.Displaying
import SharedList.Proofs.Wrapping
