import GoLab.Raft.Logs

/-!
# Requests, replies and events (`rpc.go`, `common.go`, `ev.go`)

`Responsed` tells an explicit answer from the zero reply of an event that was
discarded because the role of the server had been stopped.

The goroutines of a role push their events with `tryPutEv`, which checks that
very role.  The events below that only such goroutines push keep the identity of
that role as a history variable; the processor never reads it.
-/

namespace GoLab.Raft

inductive VoteStatus where
  | voteDefault
  | voteOther
  | voteGranted
  | voteDenial
  deriving DecidableEq, Repr

inductive EntryType where
  | entryTDefault
  | entryTQuery
  | entryTLog
  deriving DecidableEq, Repr

structure AppendEntriesArgs (α : Type) where
  id : Nat
  term : Int
  leaderCommit : Int
  entryType : EntryType
  snapshot : Option (Snapshot α)
  sendEntries : Option (SendEntries α)
  deriving DecidableEq, Repr

structure AppendEntriesReply where
  entryStatus : EntryStatus := .entryDefault
  term : Int := 0
  responsed : Bool := false
  deriving DecidableEq, Repr

structure RequestVoteArgs where
  term : Int
  candidateID : Nat
  lastLogInfo : LogInfo
  deriving DecidableEq, Repr

structure RequestVoteReply where
  term : Int := 0
  voterID : Nat := 0
  voteStatus : VoteStatus := .voteDefault
  responsed : Bool := false
  deriving DecidableEq, Repr

/-- Where the reply of a request goes: the calling server, and which call of it.
For `RequestVote` the call is the election, that is the candidate role. -/
structure Caller where
  server : Nat
  call : Nat
  deriving DecidableEq, Repr

/-- A message handed to the network. -/
inductive Msg (α : Type) where
  | appendEntries (caller : Caller) (dst : Nat) (args : AppendEntriesArgs α)
  | requestVote (caller : Caller) (dst : Nat) (args : RequestVoteArgs)
  | appendEntriesReply (caller : Caller) (reply : AppendEntriesReply)
  | requestVoteReply (caller : Caller) (src : Nat) (reply : RequestVoteReply)
  deriving DecidableEq, Repr

/-- The functions a `TransEvent` carries. -/
inductive TransFunc where
  | candidateFromFollower
  | followerFromCandidate
  | leaderFromCandidate
  | followerFromLeader
  deriving DecidableEq, Repr

inductive Event (α : Type) where
  | trans (transFunc : Option TransFunc)
  | snapshot (index : Int) (snapshot : List UInt8)
  | requestVote (caller : Caller) (args : RequestVoteArgs)
  | appendEntries (caller : Caller) (args : AppendEntriesArgs α)
  | startCommand (command : Option α)
  | heartBeatTimeout (role : Nat)
  | electionTimeout (role : Nat)
  | voteGrant (role : Nat) (term : Int) (voter : Nat)
  | staleCandidate (role : Nat) (newTerm : Int)
  | staleLeader (role : Nat) (newTerm : Int)
  | replConfirm (role id : Nat) (startIndex endIndex : Int)
  deriving DecidableEq, Repr

/-- The role an event was pushed for, for the events of a role's goroutines. -/
def Event.owner {α : Type} : Event α → Option Nat
  | .heartBeatTimeout role | .electionTimeout role | .voteGrant role _ _
  | .staleCandidate role _ | .staleLeader role _ | .replConfirm role _ _ _ => some role
  | _ => none

/-- What the service receives on `applyCh`. -/
inductive ApplyMsg (α : Type) where
  | command (commandIndex : Int) (command : Option α)
  | snapshot (snapshot : List UInt8) (snapshotTerm snapshotIndex : Int)
  deriving DecidableEq, Repr

end GoLab.Raft
