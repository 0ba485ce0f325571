import GoLab.Raft.Replicator

/-!
# A cluster of servers and its network

`Cluster.step` is one atomic step of one goroutine of one server.  The network
keeps every message ever sent: a request can be executed any number of times and
at any later moment, and a message that is lost is one that is never received.
-/

namespace GoLab.Raft

variable {α : Type}

/-- The steps of one server.

`pop` and `exec` are the processor, taking an event and going on with a handler;
`applier` is the applier goroutine; `snapshotCall` and `snapshotPush` are the
service inside `rf.Snapshot`; `start` is a client inside `rf.Start`; `heartBeat`
and `election` are the two timers; `receive` is the arrival of a message of the
network; `repl`, `call` and `refresh` are a replicator: a step of its own, one
copy of the request it waits for, and the renewal of `LeaderCommit`. -/
inductive Act (α : Type) where
  | pop
  | exec
  | applier
  | snapshotCall (index : Int) (snapshot : List UInt8)
  | snapshotPush
  | start (command : Option α)
  | heartBeat
  | election
  | receive (msg : Nat)
  | repl (number : Nat)
  | call (number : Nat)
  | refresh (number : Nat)
  | crash
  | restart
  deriving DecidableEq, Repr

/-- The steps by which something from outside reaches the event channel. -/
def Act.isInput : Act α → Bool
  | .start _ | .heartBeat | .election | .receive _ => true
  | _ => false

namespace Server

/-- A handler that crashes takes the process down. -/
def orCrash (sv : Server α) (out : Option (Out α)) : Out α :=
  out.getD { server := sv.crashed }

/-- The processor takes the next event. -/
def pop (cfg : Config) (me : Nat) (sv : Server α) : Option (Out α) :=
  match sv.todo, sv.evCh with
  | [], ev :: rest =>
      some (sv.orCrash (processEvent cfg me { sv with evCh := rest } ev))
  | _, _ => none

/-- The processor goes on with a handler; `none` when it is blocked on a channel. -/
def exec (cfg : Config) (me : Nat) (sv : Server α) : Option (Out α) :=
  match sv.todo with
  | [] => none
  | op :: rest =>
      let sv : Server α := { sv with todo := rest }
      match op with
      | .persistState => some { server := sv.persistState, obs := [.saved me] }
      | .persist => some { server := sv.persist, obs := [.saved me] }
      | .apply item => do
          let server ← sv.sendApplier item
          return { server, obs := [.queued me item] }
      | .updateCommit leaderCommit =>
          match sv.logs.updateCommit leaderCommit with
          | none => some { server := sv.crashed }
          | some (_, none) => some { server := sv }
          | some (logs, some item) => do
              let server ← sv.sendApplier item
              return {
                server := { server with logs, todo := .persistState :: rest }
                obs := [.queued me item] }
      | .grantVote caller args =>
          some (sv.orCrash do
            let upToDate ← sv.logs.atLeastUpToDate args.lastLogInfo
            if upToDate then
              return {
                server := { sv with
                  voteFor := some args.candidateID
                  todo := rest ++ [.replyRequestVote caller args
                    { voteStatus := .voteGranted }] }
                obs := [.voted me args.term args.candidateID sv.logs.full] }
            else
              return { server := { sv with
                todo := rest ++ [.replyRequestVote caller args
                  { voteStatus := .voteOther }] } })
      | .transRole transFunc => (sv.transRole transFunc).map fun server => { server }
      | .replyAppendEntries caller args reply =>
          some {
            server := sv
            msgs := [.appendEntriesReply caller { reply with responsed := true }]
            obs := [.answered me args reply.entryStatus] }
      | .replyRequestVote caller args reply =>
          some {
            server := sv
            msgs := [.requestVoteReply caller me { reply with responsed := true }]
            obs := if reply.voteStatus = .voteGranted then
                [.granted me args.term args.candidateID]
              else [] }
      | .replySnapshot ok =>
          match sv.service with
          | .waiting index snapshot =>
              let service := if ok then Service.ready else .calling index snapshot
              some { server := { sv with service } }
          | _ => some { server := sv }
      | .replyStart commandIndex logIndex =>
          match sv.role with
          | .leader rc =>
              some (sv.orCrash do
                let rc ← rc.watchIndex cfg.peers me logIndex
                return {
                  server := { sv with role := .leader rc }
                  obs := [.started me commandIndex sv.term logIndex] })
          | _ => some { server := sv }
      | .setActive => some { server := { sv with active := true } }

/-- The service calls `rf.Snapshot` for a command it has received. -/
def snapshotCall (sv : Server α) (index : Int) (snapshot : List UInt8) :
    Option (Out α) := do
  guard (sv.service = .ready ∧ index ∈ sv.received)
  return { server := { sv with service := .calling index snapshot } }

/-- `rf.Snapshot` pushes its event. -/
def snapshotPush (sv : Server α) : Option (Out α) :=
  match sv.service with
  | .calling index snapshot => do
      let server ← sv.push (.snapshot index snapshot)
      return { server := { server with service := .waiting index snapshot } }
  | _ => none

/-- The heartbeat timer of the present follower fires. -/
def heartBeat (sv : Server α) : Option (Out α) :=
  match sv.role with
  | .follower => (sv.push (.heartBeatTimeout sv.roleId)).map fun server => { server }
  | _ => none

/-- The election timer of the present candidate fires. -/
def election (sv : Server α) : Option (Out α) :=
  match sv.role with
  | .candidate _ => (sv.push (.electionTimeout sv.roleId)).map fun server => { server }
  | _ => none

/-- A reply reaches a replicator. -/
def replReceive (sv : Server α) (number id : Nat) (reply : AppendEntriesReply) :
    Option (Server α) := do
  let repl ← sv.repls[number]?
  let (repl, ev) := repl.receive sv id reply
  let sv : Server α := { sv with repls := sv.repls.set number repl }
  match ev with
  | none => some sv
  | some ev => sv.push ev

/-- The replicator that waits for the replies of a call. -/
def caller? (sv : Server α) (id : Nat) : Option Nat :=
  sv.repls.findIdx? fun repl => (repl.calling.map Call.id) == some id

/-- A message of the network arrives at server `me`. -/
def receive (me : Nat) (sv : Server α) : Msg α → Option (Out α)
  | .appendEntries caller dst args => do
      guard (dst = me)
      let server ← sv.push (.appendEntries caller args)
      return { server }
  | .requestVote caller dst args => do
      guard (dst = me)
      let server ← sv.push (.requestVote caller args)
      return { server }
  | .appendEntriesReply caller reply => do
      guard (caller.server = me)
      let number ← sv.caller? caller.call
      let server ← sv.replReceive number caller.call reply
      return { server }
  | .requestVoteReply caller src reply => do
      guard (caller.server = me)
      let server ← sv.votePolled caller.call src reply
      return { server }

/-- A step of a replicator of its own. -/
def replStep (me : Nat) (sv : Server α) (number : Nat) : Option (Out α) := do
  let repl ← sv.repls[number]?
  let sv ← match repl.pc with
    | .stepDown => sv.transRole .followerFromLeader
    | _ => some sv
  match repl.advance me sv with
  | none => some { server := sv.crashed }
  | some repl =>
      some { server := { sv with
        repls := sv.repls.set number repl
        nextId := sv.nextId + 1 } }

/-- A replicator sends one copy of the request it waits for. -/
def replCall (me : Nat) (sv : Server α) (number : Nat) : Option (Out α) := do
  let repl ← sv.repls[number]?
  let call ← repl.calling
  return {
    server := sv
    msgs := [.appendEntries ⟨me, call.id⟩ repl.peerId (Replicator.copy sv call)] }

/-- A replicator renews `LeaderCommit`. -/
def replRefresh (sv : Server α) (number : Nat) : Option (Out α) := do
  let repl ← sv.repls[number]?
  return { server := { sv with repls := sv.repls.set number (repl.refresh sv) } }

/-- `Make` on the persister of a crashed server. -/
def restart (me : Nat) (sv : Server α) : Option (Out α) := do
  let server ← make sv.persister sv.nextId
  return {
    server
    obs := server.applier.reverse.map (.queued me) ++ [.restarted me sv.persister.base] }

/-- One step of a server that runs. -/
def act (cfg : Config) (me : Nat) (net : List (Msg α)) (sv : Server α) :
    Act α → Option (Out α)
  | .pop => sv.pop cfg me
  | .exec => sv.exec cfg me
  | .applier => sv.applierStep me
  | .snapshotCall index snapshot => sv.snapshotCall index snapshot
  | .snapshotPush => sv.snapshotPush
  | .start command => (sv.push (.startCommand command)).map fun server => { server }
  | .heartBeat => sv.heartBeat
  | .election => sv.election
  | .receive msg => do
      let msg ← net[msg]?
      sv.receive me msg
  | .repl number => sv.replStep me number
  | .call number => sv.replCall me number
  | .refresh number => sv.replRefresh number
  | .crash => some { server := sv.crashed }
  | .restart => none

end Server

/-- All servers, every message ever sent, and the history, latest first. -/
structure Cluster (α : Type) where
  servers : Nat → Server α
  net : List (Msg α)
  obs : List (Obs α)

/-- A step of the cluster: which server, and what it does. -/
structure Label (α : Type) where
  server : Nat
  act : Act α
  deriving DecidableEq, Repr

/-- Steps of one server, one after the other. -/
def Label.all (i : Nat) (acts : List (Act α)) : List (Label α) :=
  acts.map (Label.mk i)

/-- A cluster on a run-time library that doubles an array it has to grow. -/
def Config.doubling (peers : Nat) : Config :=
  ⟨peers, fun cap needed => max needed (2 * cap)⟩

namespace Cluster

/-- All servers start without a persisted state. -/
def init : Cluster α where
  servers := fun _ => Server.initial
  net := []
  obs := []

/-- Put the outcome of a step of server `i` in place. -/
def update (s : Cluster α) (i : Nat) (out : Out α) : Cluster α where
  servers := fun j => if j = i then out.server else s.servers j
  net := s.net ++ out.msgs
  obs := out.obs ++ s.obs

/-- The outcome of a step of server `i`: a server that is down can only restart. -/
def outcome (cfg : Config) (s : Cluster α) (label : Label α) :
    Option (Out α) :=
  let sv := s.servers label.server
  if label.server < cfg.peers then
    if sv.up then
      sv.act cfg label.server s.net label.act
    else
      match label.act with
      | .restart => sv.restart label.server
      | _ => none
  else
    none

/-- One step. -/
def step (cfg : Config) (label : Label α) (s : Cluster α) :
    Option (Cluster α) :=
  (s.outcome cfg label).map (s.update label.server)

end Cluster

/-! ## How runs of three servers begin -/

/-- The heartbeat timer of server 0 fires and it stands for election. -/
def firstElection : List (Label Nat) :=
  Label.all 0 [.pop, .heartBeat, .pop, .exec, .pop]

/-- Server 1 votes for server 0, which becomes the leader of term 1. -/
def leaderElected : List (Label Nat) :=
  firstElection ++
  Label.all 1 [.pop, .receive 0, .pop, .exec] ++
  Label.all 0 [.receive 2, .pop, .exec, .pop, .exec]

/-- The leader appends a command and sends it to server 1. -/
def firstSent : List (Label Nat) :=
  leaderElected ++
  Label.all 0 [.start (some 7), .pop, .exec, .exec, .repl 0, .repl 0, .repl 0, .repl 0,
    .call 0] ++
  Label.all 1 [.receive 3, .pop, .exec] ++
  Label.all 0 [.receive 4, .repl 0, .repl 0, .repl 0, .repl 0, .repl 0, .call 0]

/-- Server 1 appends the command as well, and the leader commits and delivers it. -/
def firstCommit : List (Label Nat) :=
  firstSent ++
  Label.all 1 [.receive 5, .pop, .exec, .exec, .exec] ++
  Label.all 0 [.receive 6, .pop, .exec, .exec, .applier, .applier, .applier, .applier]

/-- Server 1 learns from the next request that the first command is committed, and
delivers it as well. -/
def followerDelivers : List (Label Nat) :=
  firstCommit ++
  Label.all 0 [.repl 0, .repl 0, .repl 0, .call 0] ++
  Label.all 1 [.receive 7, .pop, .exec, .exec, .applier, .applier, .applier, .applier]

end GoLab.Raft
