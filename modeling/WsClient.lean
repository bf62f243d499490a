import WsClient.Lib.Transition
import WsClient.Lib.Atomic
import WsClient.Lib.Fifo
import WsClient.Lib.HappensBefore
import WsClient.Lib.Bytes
import WsClient.Lib.Words
import WsClient.Lib.LinkedList
import WsClient.SpscQueue.Model
import WsClient.SpscQueue.Refinement
import WsClient.SpscQueue.Linearizability
import WsClient.MemoryPool.Model
import WsClient.MemoryPool.Layout
import WsClient.MemoryPool.FreeList
import WsClient.Client.Model
import WsClient.Client.Accounting
import WsClient.Client.Send
import WsClient.Connection.Model
import WsClient.Connection.Threads
import WsClient.Connection.Driver
import WsClient.Connection.Ownership
import WsClient.Connection.Protocol
import WsClient.Connection.Callbacks
import WsClient.Connection.Visible
import WsClient.Connection.Shutdown
import WsClient.Connection.Supervision
import WsClient.Connection.Termination
import WsClient.Connection.Repair
import WsClient.Session.Model
import WsClient.Session.Threads
import WsClient.Session.Buffers
import WsClient.Session.Pairing
import WsClient.Session.Stranding
import WsClient.Session.Answering
import WsClient.Session.Closing
import WsClient.Session.Exchange
import WsClient.Session.Heartbeat
import WsClient.Main.Args
import WsClient.Main.Model
import WsClient.Main.Encryption
import WsClient.MemoryPool.Contents
import WsClient.PoolPtr.Model
import WsClient.PoolPtr.Conservation
import WsClient.PoolPtr.Ownership
import WsClient.Connection.Backoff
import WsClient.Connection.NullChecks
import WsClient.Connection.Generation
import WsClient.Connection.Recovery
import WsClient.Connection.Finality
import WsClient.Managed.Model
import WsClient.Managed.Lifetime
import WsClient.Managed.Quit
import WsClient.Managed.Handover
import WsClient.Lib.Quantile
import WsClient.Latency.Model
import WsClient.Latency.Percentile
import WsClient.Latency.Report
import WsClient.Latency.Spread
import WsClient.Main.Options
import WsClient.Main.Settings
import WsClient.Lib.Growth
import WsClient.Connection.Growth
import WsClient.SpscQueue.Snapshot
import WsClient.SpscQueue.Progress
import WsClient.SpscQueue.Races
import WsClient.Client.Receiver
import WsClient.Bench.Model
import WsClient.Bench.Throughput
import WsClient.Bench.MessageSizes
import WsClient.Connection.Cycles
import WsClient.Connection.Budget
import WsClient.Bench.Suite
import WsClient.Bench.Script
import WsClient.Bench.Completion
import WsClient.Lib.Monitor
import WsClient.Legacy.Model
import WsClient.Legacy.Exchange
import WsClient.Legacy.Waiting
