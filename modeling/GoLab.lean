import GoLab.Lib.Bisect
import GoLab.Lib.Consensus
import GoLab.Lib.LogTree
import GoLab.Lib.RWLock
import GoLab.Lib.CellMap
import GoLab.Lib.Custody
import GoLab.Lib.Execution
import GoLab.Lib.Grouping
import GoLab.Lib.Linearization
import GoLab.Lib.Linked
import GoLab.Lib.Locality
import GoLab.Lib.LockTrace
import GoLab.Lib.Marks
import GoLab.Lib.Run
import GoLab.Lib.Slice
import GoLab.Raft.AppliedStream
import GoLab.Raft.Assertions
import GoLab.Raft.Ballots
import GoLab.Raft.BitSet
import GoLab.Raft.BitVec
import GoLab.Raft.Branches
import GoLab.Raft.Calls
import GoLab.Raft.Candidates
import GoLab.Raft.Census
import GoLab.Raft.Cluster
import GoLab.Raft.CommandIndex
import GoLab.Raft.CommitCount
import GoLab.Raft.Commitment
import GoLab.Raft.Compaction
import GoLab.Raft.Completeness
import GoLab.Raft.Confirmations
import GoLab.Raft.Correspondence
import GoLab.Raft.Cursors
import GoLab.Raft.Deadlock
import GoLab.Raft.Edits
import GoLab.Raft.Election
import GoLab.Raft.EventFlags
import GoLab.Raft.EventIsolation
import GoLab.Raft.EventLoop
import GoLab.Raft.EventTokens
import GoLab.Raft.Following
import GoLab.Raft.FullLog
import GoLab.Raft.Goroutines
import GoLab.Raft.Handlers
import GoLab.Raft.Handles
import GoLab.Raft.History
import GoLab.Raft.Isolation
import GoLab.Raft.LeaderLog
import GoLab.Raft.LockedHandlers
import GoLab.Raft.Locking
import GoLab.Raft.LogLock
import GoLab.Raft.LogMatching
import GoLab.Raft.LogOps
import GoLab.Raft.Logs
import GoLab.Raft.Make
import GoLab.Raft.Payload
import GoLab.Raft.MatchIndex
import GoLab.Raft.Persistence
import GoLab.Raft.Promises
import GoLab.Raft.Recovery
import GoLab.Raft.ReplCounter
import GoLab.Raft.Replication
import GoLab.Raft.Replicators
import GoLab.Raft.Replicator
import GoLab.Raft.Representation
import GoLab.Raft.Roles
import GoLab.Raft.Retention
import GoLab.Raft.Rpc
import GoLab.Raft.Server
import GoLab.Raft.Snapshots
import GoLab.Raft.StaleLeader
import GoLab.Raft.Steps
import GoLab.Raft.Tally
import GoLab.Raft.Transitions
import GoLab.Raft.VoteCount
import GoLab.Raft.Window
import GoLab.KVSrv.Server
import GoLab.KVSrv.Session
import GoLab.KVSrv.Retry
import GoLab.KVSrv.Concurrent
import GoLab.KVSrv.Linearizable
import GoLab.Porcupine.Bitset
import GoLab.Porcupine.Checker
import GoLab.Porcupine.KvModel
import GoLab.Porcupine.Nodes
import GoLab.Porcupine.Search
import GoLab.Porcupine.Verdict
import GoLab.Porcupine.Histories
import GoLab.Porcupine.Parallel
import GoLab.Porcupine.ParallelRuns
import GoLab.Porcupine.Operations
import GoLab.KVSrv.Checked
import GoLab.KVRaft.Store
import GoLab.KVRaft.Server
import GoLab.KVRaft.Pending
import GoLab.MapReduce.Coordinator
import GoLab.MapReduce.Conservation
import GoLab.MapReduce.Stages
import GoLab.MapReduce.WorkerIDs
import GoLab.MapReduce.Worker
import GoLab.MapReduce.Dataflow
import GoLab.MapReduce.System
import GoLab.MapReduce.Consistency
import GoLab.MapReduce.ExactlyOnce
import GoLab.MapReduce.NoPanic
