import SqlStore.Proofs.Calendar.Interval
import SqlStore.Proofs.Function.Rounding
import SqlStore.Proofs.Numeric.Declared
import SqlStore.Proofs.Operator.Containment
import SqlStore.Proofs.Operator.Integers
import SqlStore.Proofs.Operator.Pattern
import SqlStore.Proofs.Query.Joins
import SqlStore.Proofs.Query.Ordering
import SqlStore.Proofs.Session.Appending
import SqlStore.Proofs.Session.ClosedQuery
import SqlStore.Proofs.Session.DropTable
import SqlStore.Proofs.Session.Expansions
import SqlStore.Proofs.Session.Grouping
import SqlStore.Proofs.Session.IdentityUpdate
import SqlStore.Proofs.Session.Integrity
import SqlStore.Proofs.Session.Layout
import SqlStore.Proofs.Session.MirroredJoins
import SqlStore.Proofs.Session.Rollback
import SqlStore.Proofs.Session.Simultaneity
import SqlStore.Proofs.Session.SnapshotIdentity
import SqlStore.Proofs.Session.Transparency
import SqlStore.Proofs.Session.TriggerOrder
import SqlStore.Proofs.Session.Typing
import SqlStore.Proofs.Syntax.Positions
import SqlStore.Proofs.Syntax.QuotedNames
import SqlStore.Proofs.Transaction.Finished
import SqlStore.Proofs.Transaction.Locality
import SqlStore.Proofs.Transaction.Release
import SqlStore.Proofs.Value.Canonical
import SqlStore.Proofs.Value.Clashes
import SqlStore.Proofs.Value.CommonOrder
import SqlStore.Proofs.Value.Text
import SqlStore.Proofs.Value.Whole
import SqlStore.Session.Basic
