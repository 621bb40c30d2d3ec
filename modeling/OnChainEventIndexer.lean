import OnChainEventIndexer.Lib.Table
import OnChainEventIndexer.Lib.Part
import OnChainEventIndexer.Lib.RowNumber
import OnChainEventIndexer.Lib.Run
import OnChainEventIndexer.Lib.Crew
import OnChainEventIndexer.Lib.Pace
import OnChainEventIndexer.Lib.KeyQueue
import OnChainEventIndexer.Lib.Unwinding
import OnChainEventIndexer.Lib.Paging
import OnChainEventIndexer.Lib.ReadCommitted
import OnChainEventIndexer.Lib.CommitOrder
import OnChainEventIndexer.Lib.Buffered
import OnChainEventIndexer.Lib.Retry
import OnChainEventIndexer.Logging
import OnChainEventIndexer.Backoff
import OnChainEventIndexer.Requests.Types
import OnChainEventIndexer.Requests.Decode
import OnChainEventIndexer.Requests.Client
import OnChainEventIndexer.Requests.Extraction
import OnChainEventIndexer.Requests.Malformed
import OnChainEventIndexer.Requests.Batch
import OnChainEventIndexer.Requests.Retries
import OnChainEventIndexer.Requests.Envelope
import OnChainEventIndexer.Requests.Budget
import OnChainEventIndexer.Requests.Cooldown
import OnChainEventIndexer.Db.Schema
import OnChainEventIndexer.Db.Jobs
import OnChainEventIndexer.Db.Signatures
import OnChainEventIndexer.Db.Transactions
import OnChainEventIndexer.Db.Statements
import OnChainEventIndexer.Db.Saves
import OnChainEventIndexer.Db.Columns
import OnChainEventIndexer.Db.Hours
import OnChainEventIndexer.Db.Migration
import OnChainEventIndexer.Db.Queue
import OnChainEventIndexer.Db.Connect
import OnChainEventIndexer.Concurrency.JobClaims
import OnChainEventIndexer.Concurrency.Leases
import OnChainEventIndexer.Concurrency.Serial
import OnChainEventIndexer.Concurrency.Turns
import OnChainEventIndexer.Concurrency.RateLimit
import OnChainEventIndexer.Concurrency.Permits
import OnChainEventIndexer.Concurrency.Drain
import OnChainEventIndexer.Concurrency.Respected
import OnChainEventIndexer.Concurrency.Escalation
import OnChainEventIndexer.Indexer.Machine
import OnChainEventIndexer.Indexer.Run
import OnChainEventIndexer.Indexer.Outcome
import OnChainEventIndexer.Indexer.Window
import OnChainEventIndexer.Indexer.Fetch
import OnChainEventIndexer.Indexer.PageBound
import OnChainEventIndexer.Indexer.Recovery
import OnChainEventIndexer.Indexer.BatchLoop
import OnChainEventIndexer.Indexer.Saved
import OnChainEventIndexer.Indexer.Inserted
import OnChainEventIndexer.Indexer.Numbers
import OnChainEventIndexer.Indexer.Listed
import OnChainEventIndexer.System.Machine
import OnChainEventIndexer.System.Ownership
import OnChainEventIndexer.System.Persisted
import OnChainEventIndexer.System.Ready
import OnChainEventIndexer.System.Blocked
import OnChainEventIndexer.System.Interference
import OnChainEventIndexer.System.Queue
import OnChainEventIndexer.System.Polling
import OnChainEventIndexer.System.Accounts
import OnChainEventIndexer.System.Provenance
import OnChainEventIndexer.System.Exact
import OnChainEventIndexer.Server
import OnChainEventIndexer.System.Progress
import OnChainEventIndexer.System.Synced
