import Chainweave.Lib.Prog
import Chainweave.Lib.Run
import Chainweave.Lib.OrderBy
import Chainweave.Lib.Hex
import Chainweave.Lib.Serde
import Chainweave.Lib.HashLink
import Chainweave.Lib.ChangeLog
import Chainweave.Lib.FirstSeen
import Chainweave.Lib.Since
import Chainweave.Core.Chain
import Chainweave.Core.ChainWalk
import Chainweave.Core.ChainShape
import Chainweave.Core.HeaderCache
import Chainweave.Core.ChainExact
import Chainweave.Core.ChainCommit
import Chainweave.Core.ChainHolds
import Chainweave.Core.CatchUp
import Chainweave.Core.Backfill
import Chainweave.Core.Wrapping
import Chainweave.Core.Contradict
import Chainweave.Core.Coordinator
import Chainweave.Core.CommitOrder
import Chainweave.Core.Rejected
import Chainweave.Core.Arrival
import Chainweave.Core.Policy
import Chainweave.Core.Ranges
import Chainweave.Core.Redact
import Chainweave.Core.Config
import Chainweave.Core.Live
import Chainweave.Core.LiveRelated
import Chainweave.Core.LiveErase
import Chainweave.Core.LiveKeeps
import Chainweave.Core.Readiness
import Chainweave.Core.LiveWindows
import Chainweave.Sink.Tables
import Chainweave.Sink.Constraints
import Chainweave.Sink.Reads
import Chainweave.Sink.Postgres
import Chainweave.Sink.Server
import Chainweave.Sink.Durable
import Chainweave.Sink.Batches
import Chainweave.Sink.Matching
import Chainweave.Sink.Refine
import Chainweave.Sink.Extend
import Chainweave.Sink.Outbox
import Chainweave.Sink.Replay
import Chainweave.Sink.Payload
import Chainweave.Sink.Abi
import Chainweave.Sink.Registry
import Chainweave.Sink.Checkpoint
import Chainweave.Sink.Redecode
import Chainweave.Sink.Retained
import Chainweave.Sink.Fresh
import Chainweave.Sink.Reconcile
import Chainweave.Sink.Observability
import Chainweave.Sink.Kafka
import Chainweave.Sink.Delivery
import Chainweave.Sink.Chains
import Chainweave.Sink.Dispatch
import Chainweave.Sink.Consumer
import Chainweave.Sink.Message
import Chainweave.Sink.Decoded
import Chainweave.Sink.Writer
import Chainweave.Rpc.Client
import Chainweave.Rpc.Retry
import Chainweave.Rpc.Attempts
import Chainweave.Rpc.Subscription
import Chainweave.Rpc.Head
import Chainweave.Rpc.Quantity
import Chainweave.Cli.Fetch
import Chainweave.Cli.FetchRules
import Chainweave.Cli.Tasks
import Chainweave.Cli.OwnLogs
import Chainweave.Cli.Pipeline
import Chainweave.Cli.Chunks
import Chainweave.Cli.Partition
import Chainweave.Cli.Termination
import Chainweave.Cli.Interleave
import Chainweave.Cli.Serialize
import Chainweave.Cli.History
import Chainweave.Cli.Progress
import Chainweave.Cli.LiveRuntime
import Chainweave.Cli.LiveSource
import Chainweave.Cli.LiveBudget
import Chainweave.Cli.SameBlocks
import Chainweave.Cli.Attachment
import Chainweave.Cli.Reconnect
import Chainweave.Cli.ReconnectHistory
import Chainweave.Cli.Tracker
import Chainweave.Cli.Retry
import Chainweave.Cli.Readiness
import Chainweave.Cli.Disagreements
import Chainweave.Cli.Wakeup
import Chainweave.Cli.Supervisor
import Chainweave.Cli.Status
import Chainweave.Cli.Start
import Chainweave.Cli.DemoConsumer
import Chainweave.Cli.RunBackfill
import Chainweave.Cli.Reference
import Chainweave.Live.Commits
import Chainweave.Live.Rules
import Chainweave.Live.Moves
import Chainweave.Live.Safety
import Chainweave.Live.FailedReads
import Chainweave.Live.Source
import Chainweave.Live.Converge
import Chainweave.Live.Serve
import Chainweave.Live.Agree
import Chainweave.Live.Reorg
import Chainweave.Live.Follow
import Chainweave.Live.Consume
