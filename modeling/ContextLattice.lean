import ContextLattice.Auth.Reset
import ContextLattice.Billing.Settlement
import ContextLattice.Engine.Update
import ContextLattice.Messaging.Remember
import ContextLattice.Outbox.Backends
import ContextLattice.Outbox.Backfill
import ContextLattice.Outbox.Budget
import ContextLattice.Outbox.Claims
import ContextLattice.Outbox.LettaSwitch
import ContextLattice.Outbox.Mindsdb
import ContextLattice.Outbox.Order
import ContextLattice.Outbox.Orphans
import ContextLattice.Outbox.Qdrant
import ContextLattice.Outbox.Retention
import ContextLattice.Retrieval.Evaluation
import ContextLattice.Retrieval.Isolation
import ContextLattice.Retrieval.McpNames
import ContextLattice.Retrieval.Passages
import ContextLattice.Retrieval.Percentiles
import ContextLattice.Retrieval.Profiles
import ContextLattice.Retrieval.SlowSources
import ContextLattice.Retrieval.TopicIndex
import ContextLattice.Secrets.Rendered
import ContextLattice.Task.Affinity
import ContextLattice.Task.Approval
import ContextLattice.Task.Attempts
import ContextLattice.Task.Columns
import ContextLattice.Task.DueTime
import ContextLattice.Task.Execute
import ContextLattice.Task.Lease
import ContextLattice.Task.Serial
import ContextLattice.Task.Terminal
import ContextLattice.Task.WorkerLoop
import ContextLattice.Usage.Budgets
import ContextLattice.Write.BankOrder
import ContextLattice.Write.DuplicateWindow
import ContextLattice.Write.Durable
import ContextLattice.Write.Flushes
import ContextLattice.Write.Retry
import ContextLattice.Write.RollupNames
