import Mathlib.Tactic.Simps.Basic
import GoLab.Raft.Rpc
import GoLab.Raft.ReplCounter

/-!
# The state of one server

A server is the processor goroutine with the event channel `evCh`, the applier
goroutine with the channel `logs.applier`, the replicator goroutines of its
present and past leaderships, the service behind `applyCh`, and the `Persister`.

A handler of the processor is cut at every persister write that a crash can
separate from what follows, at every channel send that can block, and at
`role.stop`.  `todo` is what is left of the handler the processor is in; the
processor takes the next event when it is empty.

`entries` of the log is a Go slice: `heap` and `slice` are the arrays behind it.
A request under way holds a window on the same arrays.

The mutexes of the log and of the persister never block here; the handlers are
followed with them in `Locking`.
-/

namespace GoLab.Raft

variable {α : Type}

/-- `PersistentLogs`; the snapshot is stored without its bytes. -/
structure PersistentLogs (α : Type) where
  entries : List (LogEntry α)
  lci : Int
  lli : Int
  lai : Int
  noopCount : Int
  offset : Int
  snapshot : Option (Snapshot α)
  deriving DecidableEq, Repr

structure PersistentState (α : Type) where
  voteFor : Option Nat
  term : Int
  logs : PersistentLogs α
  deriving DecidableEq, Repr

/-- `Persister`: gob is a faithful round trip, so the state is kept decoded;
`none` is the empty state of a server that never saved one. -/
structure Persister (α : Type) where
  raftstate : Option (PersistentState α)
  snapshot : List UInt8
  deriving DecidableEq, Repr

/-- The fields of a candidate, with the arguments of its `RequestVote` and the
peers whose goroutine still waits for an answer. -/
structure Candidate where
  args : RequestVoteArgs
  votes : Nat
  voters : List Bool
  polls : List Nat
  deriving DecidableEq, Repr

inductive Role where
  | follower
  | candidate (cd : Candidate)
  | leader (rc : ReplCounter)
  deriving DecidableEq, Repr

def Role.isLeader : Role → Bool
  | .leader _ => true
  | _ => false

/-- A call of `Replicator.appendEntries`.  `args` is what was built; `view` is the
slice `args.SendEntries.Entries`, read again by every copy that is sent. -/
structure Call (α : Type) where
  id : Nat
  args : AppendEntriesArgs α
  view : Slice
  atomReply : Option AppendEntriesReply
  deriving DecidableEq, Repr

/-- Where a replicator goroutine stands.

`outer`, `inner`, `probeBuild`, `probe` and `probing` are the loops of
`matchIndex`: before the check of the outer loop, before the check of the inner
one, before the request is built, before the check of `round`, and inside
`appendEntries`.  `finish` is the end of `matchIndex` and `stepDown` its direct
call of `transRole`.  `head`, `tick`, `round` and `sending` are the points of the
loop in `start`: before its check, before the request is built, before the check
of `round`, and inside `appendEntries`. -/
inductive ReplPc (α : Type) where
  | outer (prevLogIndex : Int)
  | inner (l r prevLogIndex : Int)
  | probeBuild (l r prevLogIndex : Int)
  | probe (l r prevLogIndex m : Int) (call : Call α)
  | probing (l r prevLogIndex m : Int) (call : Call α)
  | finish (prevLogIndex : Int)
  | stepDown
  | head
  | tick
  | round (call : Call α)
  | sending (call : Call α)
  | returned
  deriving DecidableEq, Repr

structure Replicator (α : Type) where
  peerId : Nat
  ld : Nat
  nextIndex : Int
  pc : ReplPc α
  deriving DecidableEq, Repr

/-- The call a replicator has built, if any. -/
def ReplPc.call? : ReplPc α → Option (Call α)
  | .probe _ _ _ _ call | .probing _ _ _ _ call | .round call | .sending call => some call
  | _ => none

/-- What is left of a handler. -/
inductive Op (α : Type) where
  | persistState
  | persist
  | apply (item : ApplyEntry α)
  | updateCommit (leaderCommit : Int)
  | grantVote (caller : Caller) (args : RequestVoteArgs)
  | transRole (transFunc : TransFunc)
  | replyAppendEntries (caller : Caller) (args : AppendEntriesArgs α)
      (reply : AppendEntriesReply)
  | replyRequestVote (caller : Caller) (args : RequestVoteArgs) (reply : RequestVoteReply)
  | replySnapshot (ok : Bool)
  | replyStart (commandIndex logIndex : Int)
  | setActive
  deriving DecidableEq, Repr

/-- What the applier goroutine has in hand. -/
inductive Hand (α : Type) where
  | idle
  | log (rest : List (LogEntry α))
  | snapshot (snapshot : Snapshot α)
  | applied (snapshot : Snapshot α)
  deriving DecidableEq, Repr

/-- The service loop: receiving from `applyCh`, about to push a `SnapshotEvent`,
or waiting for the answer to it. -/
inductive Service where
  | ready
  | calling (index : Int) (snapshot : List UInt8)
  | waiting (index : Int) (snapshot : List UInt8)
  deriving DecidableEq, Repr

/-- One server.  `received` are the command indices the service received since
the server was made, `nextId` is the supply of identities of roles and calls. -/
structure Server (α : Type) where
  up : Bool
  term : Int
  voteFor : Option Nat
  role : Role
  roleId : Nat
  active : Bool
  logs : Logs α
  heap : Heap (LogEntry α)
  slice : Slice
  evCh : List (Event α)
  todo : List (Op α)
  repls : List (Replicator α)
  applier : List (ApplyEntry α)
  hand : Hand α
  service : Service
  received : List Int
  persister : Persister α
  nextId : Nat
  deriving DecidableEq, Repr

/-- What leaves a server or changes its promises, for the statements about runs.
`restarted` carries the last index of the snapshot the server restarts from. -/
inductive Obs (α : Type) where
  | activated (server role : Nat) (term : Int) (log : List (LogEntry α))
  | pushed (server : Nat) (entry : LogEntry α)
  | started (server : Nat) (commandIndex term : Int) (logIndex : Int)
  | selfVote (server role : Nat) (term : Int) (log : List (LogEntry α))
  | voted (server : Nat) (term : Int) (candidate : Nat) (log : List (LogEntry α))
  | granted (server : Nat) (term : Int) (candidate : Nat)
  | answered (server : Nat) (args : AppendEntriesArgs α) (status : EntryStatus)
  | saved (server : Nat)
  | queued (server : Nat) (item : ApplyEntry α)
  | delivered (server : Nat) (msg : ApplyMsg α)
  | restarted (server : Nat) (base : Int)
  deriving DecidableEq, Repr

/-- A cluster of `peers` servers; `grow` is the run-time library's choice of the
capacity of a reallocated array. -/
structure Config where
  peers : Nat
  grow : Nat → Nat → Nat

/-- `majorN`. -/
def Config.majorN (cfg : Config) : Nat := cfg.peers / 2 + 1

/-- `cap(evCh)`. -/
def evCap : Nat := 1000

/-- `cap(logs.applier)`. -/
def applierCap : Nat := 10

/-- A step of a server: its new state, the messages it hands to the network, and
what it adds to the history, latest first. -/
structure Out (α : Type) where
  server : Server α
  msgs : List (Msg α) := []
  obs : List (Obs α) := []

namespace Server

/-- `encodeState`. -/
def encodeState (sv : Server α) : PersistentState α where
  voteFor := sv.voteFor
  term := sv.term
  logs := {
    entries := sv.logs.entries
    lci := sv.logs.lci
    lli := sv.logs.lli
    lai := sv.logs.lai
    noopCount := sv.logs.noopCount
    offset := sv.logs.offset
    snapshot := sv.logs.snapshot.map ({ · with snapshot := [] }) }

/-- `persistState`: the snapshot bytes of the persister stay. -/
def persistState (sv : Server α) : Server α :=
  { sv with persister := { sv.persister with raftstate := some sv.encodeState } }

/-- `persist`. -/
def persist (sv : Server α) : Server α :=
  { sv with persister := {
      raftstate := some sv.encodeState
      snapshot := (sv.logs.snapshot.map Snapshot.snapshot).getD [] } }

attribute [simps up term voteFor role roleId active logs heap slice evCh todo repls applier hand
  service received nextId] persistState persist

/-- The memory writes of `setTerm`, with its assertion. -/
def storeTerm (sv : Server α) (term : Int) : Option (Server α) := do
  guard (term > sv.term)
  return { sv with term, voteFor := none }

/-- `setTerm`. -/
def setTerm (sv : Server α) (term : Int) : Option (Server α) :=
  (sv.storeTerm term).map persistState

/-- `setTerm` behind the check that the term is larger, with what it adds to the
history. -/
def adoptTerm (me : Nat) (sv : Server α) (term : Int) :
    Option (Server α × List (Obs α)) :=
  if term > sv.term then
    (sv.setTerm term).map fun sv => (sv, [.saved me])
  else
    some (sv, [])

/-- A process that has crashed. -/
def crashed (sv : Server α) : Server α :=
  { sv with up := false }

/-- The leader role `ld` is the present one and active. -/
def leading (sv : Server α) (ld : Nat) : Bool :=
  sv.active && sv.roleId == ld

/-- `tryPutEv` for the present role when it is active; `none` when the channel is
full. -/
def push (sv : Server α) (ev : Event α) : Option (Server α) := do
  guard (sv.active ∧ sv.evCh.length < evCap)
  return { sv with evCh := sv.evCh ++ [ev] }

/-- `logs.applier <- item`; `none` when the channel is full. -/
def sendApplier (sv : Server α) (item : ApplyEntry α) : Option (Server α) := do
  guard (sv.applier.length < applierCap)
  return { sv with applier := sv.applier ++ [item] }

/-- Append to the slice behind the log, after cutting it at length `kept`. -/
def appendSlice (cfg : Config) (sv : Server α) (kept : Nat) (ets : List (LogEntry α)) :
    Server α :=
  let (heap, slice) := (sv.slice.takeFirst kept).append cfg.grow sv.heap ets
  { sv with heap, slice }

/-- `leaderAppendEntry` up to the call of `persistState`, with the command index. -/
def pushEntry (cfg : Config) (sv : Server α) (et : LogEntry α) : Server α × Int :=
  let (logs, commandIndex) := sv.logs.pushEntry et
  let sv := sv.appendSlice cfg sv.logs.entries.length
    (logs.entries.drop sv.logs.entries.length)
  ({ sv with logs }, commandIndex)

end Server

end GoLab.Raft
