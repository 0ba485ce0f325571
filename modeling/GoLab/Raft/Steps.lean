import GoLab.Raft.Handles
import GoLab.Raft.Calls

/-!
# What a step of a server can do

`Executes`, `Applies` and `Steps` list what the processor, the applier and a
whole server can do in one step, and `Cluster.step_steps` says that there is
nothing else.
-/

namespace GoLab.Raft

variable {α : Type}
variable {cfg : Config} {out : Out α} {act : Act α} {label : Label α}

/-- What the processor does with the next operation of a handler, which has been
taken off `todo`. -/
inductive Executes (cfg : Config) (me : Nat) (sv : Server α) : Op α → Out α → Prop where
  | persistState :
      Executes cfg me sv .persistState { server := sv.persistState, obs := [.saved me] }
  | persist : Executes cfg me sv .persist { server := sv.persist, obs := [.saved me] }
  | queued {item : ApplyEntry α} (room : sv.applier.length < applierCap) :
      Executes cfg me sv (.apply item)
        { server := { sv with applier := sv.applier ++ [item] }, obs := [.queued me item] }
  | notCommitted {leaderCommit : Int} {logs : Logs α}
      (result : sv.logs.updateCommit leaderCommit = some (logs, none)) :
      Executes cfg me sv (.updateCommit leaderCommit) { server := sv }
  | committed {leaderCommit : Int} {logs : Logs α} {item : ApplyEntry α}
      (result : sv.logs.updateCommit leaderCommit = some (logs, some item))
      (room : sv.applier.length < applierCap) :
      Executes cfg me sv (.updateCommit leaderCommit) {
        server := { sv with
          applier := sv.applier ++ [item]
          logs
          todo := .persistState :: sv.todo }
        obs := [.queued me item] }
  | voteGiven {caller : Caller} {args : RequestVoteArgs}
      (upToDate : sv.logs.atLeastUpToDate args.lastLogInfo = some true) :
      Executes cfg me sv (.grantVote caller args) {
        server := { sv with
          voteFor := some args.candidateID
          todo := sv.todo ++ [.replyRequestVote caller args { voteStatus := .voteGranted }] }
        obs := [.voted me args.term args.candidateID sv.logs.full] }
  | voteDenied {caller : Caller} {args : RequestVoteArgs} :
      Executes cfg me sv (.grantVote caller args) {
        server := { sv with
          todo := sv.todo ++ [.replyRequestVote caller args { voteStatus := .voteOther }] } }
  | stopped {transFunc : TransFunc} (running : sv.active = true)
      (room : sv.evCh.length < evCap) :
      Executes cfg me sv (.transRole transFunc) {
        server := { sv with
          active := false
          evCh := sv.evCh ++ [.trans (some transFunc)] } }
  | wasStopped {transFunc : TransFunc} (stopped : sv.active = false) :
      Executes cfg me sv (.transRole transFunc) { server := sv }
  | answered {caller : Caller} {args : AppendEntriesArgs α} {reply : AppendEntriesReply} :
      Executes cfg me sv (.replyAppendEntries caller args reply) {
        server := sv
        msgs := [.appendEntriesReply caller { reply with responsed := true }]
        obs := [.answered me args reply.entryStatus] }
  | voteAnswered {caller : Caller} {args : RequestVoteArgs} {reply : RequestVoteReply} :
      Executes cfg me sv (.replyRequestVote caller args reply) {
        server := sv
        msgs := [.requestVoteReply caller me { reply with responsed := true }]
        obs := if reply.voteStatus = .voteGranted then
            [.granted me args.term args.candidateID]
          else [] }
  | snapshotAnswered {ok : Bool} {service : Service}
      (released : ∀ index snapshot, service ≠ .waiting index snapshot)
      (again : ∀ index snapshot, service = .calling index snapshot →
        sv.service = .calling index snapshot ∨ sv.service = .waiting index snapshot) :
      Executes cfg me sv (.replySnapshot ok) { server := { sv with service } }
  | started {commandIndex logIndex : Int} {rc rc' : ReplCounter} (leader : sv.role = .leader rc)
      (watched : rc.watchIndex cfg.peers me logIndex = some rc') :
      Executes cfg me sv (.replyStart commandIndex logIndex) {
        server := { sv with role := .leader rc' }
        obs := [.started me commandIndex sv.term logIndex] }
  | startDropped {commandIndex logIndex : Int} (notLeader : ∀ rc, sv.role ≠ .leader rc) :
      Executes cfg me sv (.replyStart commandIndex logIndex) { server := sv }
  | activated : Executes cfg me sv .setActive { server := { sv with active := true } }

/-- One step of the applier goroutine. -/
inductive Applies (me : Nat) (sv : Server α) : Out α → Prop where
  | takenLog {entries : List (LogEntry α)} {lai : Int} {rest : List (ApplyEntry α)}
      (idle : sv.hand = .idle) (next : sv.applier = .log entries lai :: rest) :
      Applies me sv { server := { sv with applier := rest, hand := .log entries } }
  | takenSnapshot {snapshot : Snapshot α} {rest : List (ApplyEntry α)}
      (idle : sv.hand = .idle) (next : sv.applier = .snapshot snapshot :: rest) :
      Applies me sv { server := { sv with applier := rest, hand := .snapshot snapshot } }
  | finished (empty : sv.hand = .log []) :
      Applies me sv { server := { sv with hand := .idle } }
  | skipped {entry : LogEntry α} {rest : List (LogEntry α)}
      (next : sv.hand = .log (entry :: rest)) (noop : entry.commandIndex = noopIndex) :
      Applies me sv { server := { sv with hand := .log rest } }
  | delivered {entry : LogEntry α} {rest : List (LogEntry α)}
      (next : sv.hand = .log (entry :: rest)) (command : entry.commandIndex ≠ noopIndex)
      (ready : sv.service = .ready) :
      Applies me sv {
        server := { sv with
          hand := .log rest
          received := entry.commandIndex :: sv.received }
        obs := [.delivered me (.command entry.commandIndex entry.content)] }
  | snapshotDelivered {snapshot : Snapshot α} (next : sv.hand = .snapshot snapshot)
      (ready : sv.service = .ready) :
      Applies me sv {
        server := { sv with hand := .applied snapshot }
        obs := [.delivered me (.snapshot snapshot.snapshot snapshot.lastIncludeTerm
          snapshot.lastIncludeCmdIndex)] }
  | snapshotApplied {snapshot : Snapshot α} (next : sv.hand = .applied snapshot) :
      Applies me sv {
        server := ({ sv with
          hand := .idle
          logs := { sv.logs with lai := snapshot.lastIncludeIndex } } : Server α).persistState
        obs := [.saved me] }

/-- Where an event comes from that is pushed without a change to the server. -/
inductive Arrives (me : Nat) (net : List (Msg α)) (sv : Server α) : Event α → Prop where
  | startCommand {command : Option α} : Arrives me net sv (.startCommand command)
  | heartBeatTimeout (follower : sv.role = .follower) :
      Arrives me net sv (.heartBeatTimeout sv.roleId)
  | electionTimeout {cd : Candidate} (candidate : sv.role = .candidate cd) :
      Arrives me net sv (.electionTimeout sv.roleId)
  | appendEntries {caller : Caller} {args : AppendEntriesArgs α}
      (sent : .appendEntries caller me args ∈ net) :
      Arrives me net sv (.appendEntries caller args)
  | requestVote {caller : Caller} {args : RequestVoteArgs}
      (sent : .requestVote caller me args ∈ net) :
      Arrives me net sv (.requestVote caller args)

/-- The event the goroutine of a peer pushes for the reply to its `RequestVote`. -/
inductive PollEvent (sv : Server α) (cd : Candidate) (reply : RequestVoteReply) :
    Event α → Prop where
  | granted (granted : reply.voteStatus = .voteGranted) :
      PollEvent sv cd reply (.voteGrant sv.roleId cd.args.term reply.voterID)
  | other (other : reply.voteStatus = .voteOther) (larger : sv.term < reply.term) :
      PollEvent sv cd reply (.staleCandidate sv.roleId reply.term)
  | denied (denied : reply.voteStatus = .voteDenial) :
      PollEvent sv cd reply (.staleCandidate sv.roleId sv.term)

/-- One step of one server. -/
inductive Steps (cfg : Config) (me : Nat) (net : List (Msg α)) (sv : Server α) :
    Act α → Out α → Prop where
  | popped {ev : Event α} {rest : List (Event α)} {out : Out α} (up : sv.up = true)
      (idle : sv.todo = []) (next : sv.evCh = ev :: rest)
      (handles : Handles cfg me { sv with evCh := rest } ev out) :
      Steps cfg me net sv .pop out
  | executed {op : Op α} {rest : List (Op α)} {out : Out α} (up : sv.up = true)
      (next : sv.todo = op :: rest)
      (executes : Executes cfg me { sv with todo := rest } op out) :
      Steps cfg me net sv .exec out
  | applied {out : Out α} (up : sv.up = true) (applies : Applies me sv out) :
      Steps cfg me net sv .applier out
  | snapshotCalled {index : Int} {snapshot : List UInt8} (up : sv.up = true)
      (ready : sv.service = .ready) (received : index ∈ sv.received) :
      Steps cfg me net sv (.snapshotCall index snapshot)
        { server := { sv with service := .calling index snapshot } }
  | snapshotPushed {index : Int} {snapshot : List UInt8} (up : sv.up = true)
      (calling : sv.service = .calling index snapshot) (running : sv.active = true)
      (room : sv.evCh.length < evCap) :
      Steps cfg me net sv .snapshotPush { server := { sv with
        evCh := sv.evCh ++ [.snapshot index snapshot]
        service := .waiting index snapshot } }
  | arrived {act : Act α} {ev : Event α} (input : act.isInput = true) (up : sv.up = true)
      (arrives : Arrives me net sv ev) (running : sv.active = true)
      (room : sv.evCh.length < evCap) :
      Steps cfg me net sv act { server := { sv with evCh := sv.evCh ++ [ev] } }
  | polled {act : Act α} {cd : Candidate} {src : Nat} {reply : RequestVoteReply}
      (input : act.isInput = true) (up : sv.up = true) (candidate : sv.role = .candidate cd)
      (running : sv.active = true) (waiting : src ∈ cd.polls)
      (sent : .requestVoteReply ⟨me, sv.roleId⟩ src reply ∈ net)
      (answered : reply.responsed = true) :
      Steps cfg me net sv act
        { server := { sv with role := .candidate { cd with polls := cd.polls.erase src } } }
  | polledEvent {act : Act α} {cd : Candidate} {src : Nat} {reply : RequestVoteReply}
      {ev : Event α} (input : act.isInput = true) (up : sv.up = true)
      (candidate : sv.role = .candidate cd)
      (running : sv.active = true) (waiting : src ∈ cd.polls)
      (sent : .requestVoteReply ⟨me, sv.roleId⟩ src reply ∈ net)
      (answered : reply.responsed = true) (event : PollEvent sv cd reply ev)
      (room : sv.evCh.length < evCap) :
      Steps cfg me net sv act { server := { sv with
        role := .candidate { cd with polls := cd.polls.erase src }
        evCh := sv.evCh ++ [ev] } }
  | replied {act : Act α} {number id : Nat} {repl repl' : Replicator α}
      {reply : AppendEntriesReply} (input : act.isInput = true) (up : sv.up = true)
      (found : sv.repls[number]? = some repl) (sent : .appendEntriesReply ⟨me, id⟩ reply ∈ net)
      (receives : Receives sv repl id reply repl' none) :
      Steps cfg me net sv act { server := { sv with repls := sv.repls.set number repl' } }
  | repliedEvent {act : Act α} {number id : Nat} {repl repl' : Replicator α}
      {reply : AppendEntriesReply} {ev : Event α} (input : act.isInput = true) (up : sv.up = true)
      (found : sv.repls[number]? = some repl)
      (sent : .appendEntriesReply ⟨me, id⟩ reply ∈ net)
      (receives : Receives sv repl id reply repl' (some ev)) (running : sv.active = true)
      (room : sv.evCh.length < evCap) :
      Steps cfg me net sv act { server := { sv with
        repls := sv.repls.set number repl'
        evCh := sv.evCh ++ [ev] } }
  | advanced {number : Nat} {repl repl' : Replicator α} (up : sv.up = true)
      (found : sv.repls[number]? = some repl) (advances : Advances me sv repl repl') :
      Steps cfg me net sv (.repl number) { server := { sv with
        repls := sv.repls.set number repl'
        nextId := sv.nextId + 1 } }
  | steppedDown {number : Nat} {repl : Replicator α} (up : sv.up = true)
      (found : sv.repls[number]? = some repl) (stepDown : repl.pc = .stepDown)
      (running : sv.active = true) (room : sv.evCh.length < evCap) :
      Steps cfg me net sv (.repl number) { server := { sv with
        active := false
        evCh := sv.evCh ++ [.trans (some .followerFromLeader)]
        repls := sv.repls.set number { repl with pc := .returned }
        nextId := sv.nextId + 1 } }
  | called {number : Nat} {repl : Replicator α} {call : Call α} (up : sv.up = true)
      (found : sv.repls[number]? = some repl) (calling : repl.calling = some call) :
      Steps cfg me net sv (.call number) {
        server := sv
        msgs := [.appendEntries ⟨me, call.id⟩ repl.peerId (Replicator.copy sv call)] }
  | refreshed {number : Nat} {repl : Replicator α} (up : sv.up = true)
      (found : sv.repls[number]? = some repl) :
      Steps cfg me net sv (.refresh number)
        { server := { sv with repls := sv.repls.set number (repl.refresh sv) } }
  | crashed {act : Act α} {todo : List (Op α)} (up : sv.up = true) :
      Steps cfg me net sv act { server := { sv with up := false, todo } }
  | restarted {server : Server α} (down : sv.up = false)
      (made : make sv.persister sv.nextId = some server) :
      Steps cfg me net sv .restart {
        server
        obs := server.applier.reverse.map (.queued me) ++ [.restarted me sv.persister.base] }

section

variable {me : Nat} {net : List (Msg α)} {sv : Server α}

theorem Server.push_eq_some {sv pushed : Server α} {ev : Event α} :
    sv.push ev = some pushed ↔
      (sv.active = true ∧ sv.evCh.length < evCap) ∧
        { sv with evCh := sv.evCh ++ [ev] } = pushed := by
  unfold Server.push guard
  split
  case isTrue room => simp [room]
  case isFalse blocked =>
    constructor
    · intro impossible
      cases impossible
    · rintro ⟨room, -⟩
      exact (blocked room).elim

theorem Server.sendApplier_eq_some {sv sent : Server α} {item : ApplyEntry α} :
    sv.sendApplier item = some sent ↔
      sv.applier.length < applierCap ∧ { sv with applier := sv.applier ++ [item] } = sent := by
  unfold Server.sendApplier guard
  split
  case isTrue room => simp [room]
  case isFalse blocked =>
    constructor
    · intro impossible
      cases impossible
    · rintro ⟨room, -⟩
      exact (blocked room).elim

/-- What the processor does when it goes on with a handler, a crash apart. -/
theorem Server.exec_steps (up : sv.up = true) (result : sv.exec cfg me = some out) :
    Steps cfg me net sv .exec out := by
  unfold Server.exec at result
  split at result
  case h_1 => cases result
  case h_2 op rest next =>
    dsimp only at result
    split at result
    case h_1 =>
      cases result
      exact .executed up next .persistState
    case h_2 =>
      cases result
      exact .executed up next .persist
    case h_3 item =>
      simp only [Option.bind_eq_bind, Option.bind_eq_some_iff, sendApplier_eq_some] at result
      obtain ⟨_, ⟨room, rfl⟩, result⟩ := result
      cases result
      exact .executed up next (.queued room)
    case h_4 leaderCommit =>
      split at result
      case h_1 =>
        cases result
        exact .crashed up
      case h_2 result' =>
        cases result
        exact .executed up next (.notCommitted result')
      case h_3 committed =>
        simp only [Option.bind_eq_bind, Option.bind_eq_some_iff, sendApplier_eq_some] at result
        obtain ⟨_, ⟨room, rfl⟩, result⟩ := result
        cases result
        exact .executed up next (.committed committed room)
    case h_5 caller args =>
      simp only [Option.some.injEq] at result
      subst result
      unfold Server.orCrash
      cases upToDate : sv.logs.atLeastUpToDate args.lastLogInfo with
      | none => exact .crashed up
      | some answer =>
          cases answer with
          | true => exact .executed up next (.voteGiven upToDate)
          | false => exact .executed up next .voteDenied
    case h_6 transFunc =>
      unfold Server.transRole guard at result
      split at result
      case isTrue running =>
        split at result
        case isTrue room =>
          cases result
          exact .executed up next (.stopped running room)
        case isFalse => cases result
      case isFalse stopped =>
        cases result
        exact .executed up next (.wasStopped (by simpa using stopped))
    case h_7 =>
      cases result
      exact .executed up next .answered
    case h_8 =>
      cases result
      exact .executed up next .voteAnswered
    case h_9 ok =>
      split at result
      case h_1 index snapshot waiting =>
        cases result
        refine .executed up next (.snapshotAnswered ?_ ?_)
        · cases ok <;> simp
        · cases ok <;> simp_all
      case h_2 notWaiting =>
        cases result
        exact .executed up next (.snapshotAnswered notWaiting fun _ _ => .inl)
    case h_10 =>
      split at result
      case h_1 rc leader =>
        simp only [Option.some.injEq] at result
        subst result
        unfold Server.orCrash
        cases watched : rc.watchIndex cfg.peers me _ with
        | none => exact .crashed up
        | some rc' => exact .executed up next (.started leader watched)
      case h_2 notLeader =>
        cases result
        exact .executed up next (.startDropped notLeader)
    case h_11 =>
      cases result
      exact .executed up next .activated

theorem Server.applierStep_applies (result : sv.applierStep me = some out) :
    Applies me sv out := by
  unfold Server.applierStep at result
  split at result
  case h_1 idle =>
    split at result
    case h_1 => cases result
    case h_2 next =>
      cases result
      exact .takenLog idle next
    case h_3 next =>
      cases result
      exact .takenSnapshot idle next
  case h_2 empty =>
    cases result
    exact .finished empty
  case h_3 next =>
    split at result
    case isTrue noop =>
      cases result
      exact .skipped next noop
    case isFalse command =>
      unfold guard at result
      split at result
      case isTrue ready =>
        cases result
        exact .delivered next command ready
      case isFalse => cases result
  case h_4 next =>
    unfold guard at result
    split at result
    case isTrue ready =>
      cases result
      exact .snapshotDelivered next ready
    case isFalse => cases result
  case h_5 next =>
    cases result
    exact .snapshotApplied next

/-! ### What comes in from outside -/

/-- What the reply of peer `src` does to the candidate `cd`. -/
inductive Polls (sv : Server α) (cd : Candidate) (src : Nat) (reply : RequestVoteReply) :
    Server α → Prop where
  | quiet (notGranted : reply.voteStatus ≠ .voteGranted) :
      Polls sv cd src reply
        { sv with role := .candidate { cd with polls := cd.polls.erase src } }
  | event {ev : Event α} (event : PollEvent sv cd reply ev) (room : sv.evCh.length < evCap) :
      Polls sv cd src reply { sv with
        role := .candidate { cd with polls := cd.polls.erase src }
        evCh := sv.evCh ++ [ev] }

theorem Server.votePolled_polls {role src : Nat} {reply : RequestVoteReply} {server : Server α}
    (result : sv.votePolled role src reply = some server) :
    ∃ cd, sv.role = .candidate cd ∧ (sv.active = true ∧ sv.roleId = role) ∧ src ∈ cd.polls ∧
      reply.responsed = true ∧ Polls sv cd src reply server := by
  unfold Server.votePolled at result
  split at result
  case h_1 cd candidate =>
    unfold guard at result
    split at result
    case isFalse => cases result
    case isTrue guarded =>
      obtain ⟨leading, waiting, answered⟩ := guarded
      simp only [Server.leading, Bool.and_eq_true, beq_iff_eq] at leading
      refine ⟨cd, candidate, leading, waiting, answered, ?_⟩
      simp only [Option.bind_eq_bind, Option.pure_def, Option.bind_some] at result
      split at result
      case h_1 granted =>
        rw [Server.push_eq_some] at result
        obtain ⟨⟨_, room⟩, rfl⟩ := result
        exact leading.2 ▸ .event (.granted granted) room
      case h_2 other =>
        split at result
        case isTrue larger =>
          rw [Server.push_eq_some] at result
          obtain ⟨⟨_, room⟩, rfl⟩ := result
          exact leading.2 ▸ .event (.other other larger) room
        case isFalse =>
          cases result
          exact .quiet (by simp [other])
      case h_3 denied =>
        rw [Server.push_eq_some] at result
        obtain ⟨⟨_, room⟩, rfl⟩ := result
        exact leading.2 ▸ .event (.denied denied) room
      case h_4 unset =>
        cases result
        exact .quiet (by simp [unset])
  case h_2 => cases result

/-- A reply reaches replicator `number`, which may push an event. -/
theorem Server.replReceive_eq_some {number id : Nat} {reply : AppendEntriesReply}
    {server : Server α} (result : sv.replReceive number id reply = some server) :
    ∃ repl repl' ev?, sv.repls[number]? = some repl ∧ repl.receive sv id reply = (repl', ev?) ∧
      (ev? ≠ none → sv.active = true ∧ sv.evCh.length < evCap) ∧
      server = { sv with repls := sv.repls.set number repl', evCh := sv.evCh ++ ev?.toList } := by
  unfold Server.replReceive at result
  simp only [Option.bind_eq_bind, Option.bind_eq_some_iff] at result
  obtain ⟨repl, found, result⟩ := result
  obtain ⟨repl', ev?, receives⟩ : ∃ repl' ev?, repl.receive sv id reply = (repl', ev?) :=
    ⟨_, _, rfl⟩
  rw [receives] at result
  refine ⟨repl, repl', ev?, found, receives, ?_⟩
  cases ev? with
  | none =>
      cases result
      simp
  | some ev =>
      obtain ⟨room, rfl⟩ := Server.push_eq_some.mp result
      exact ⟨fun _ => room, rfl⟩

/-- A step that brings something from outside: an event, a reply for a replicator or a
reply for a candidate. -/
inductive Server.Takes (me : Nat) (net : List (Msg α)) (sv : Server α) :
    Act α → Server α → Prop where
  | event {act : Act α} {ev : Event α} {server : Server α} (arrives : Arrives me net sv ev)
      (noVote : ∀ msg caller src reply, act = .receive msg →
        net[msg]? ≠ some (.requestVoteReply caller src reply))
      (pushed : sv.push ev = some server) : Takes me net sv act server
  | reply {msg number id : Nat} {reply : AppendEntriesReply} {server : Server α}
      (found : net[msg]? = some (.appendEntriesReply ⟨me, id⟩ reply))
      (received : sv.replReceive number id reply = some server) :
      Takes me net sv (.receive msg) server
  | vote {msg role src : Nat} {reply : RequestVoteReply} {server : Server α}
      (found : net[msg]? = some (.requestVoteReply ⟨me, role⟩ src reply))
      (polled : sv.votePolled role src reply = some server) :
      Takes me net sv (.receive msg) server

theorem Server.receive_takes {index : Nat} {msg : Msg α} (found : net[index]? = some msg)
    (result : sv.receive me msg = some out) :
    ∃ server, out = { server } ∧ sv.Takes me net (.receive index) server := by
  have noVote (other : ∀ caller src reply, msg ≠ .requestVoteReply caller src reply) :
      ∀ index' caller src reply, Act.receive index = (.receive index' : Act α) →
        net[index']? ≠ some (.requestVoteReply caller src reply) := by
    rintro _ caller src reply ⟨⟩ found'
    exact other caller src reply (Option.some.inj (found.symm.trans found'))
  unfold Server.receive at result
  split at result <;>
    simp only [Option.bind_eq_bind, Option.bind_eq_some_iff, Option.guard_eq_some'] at result
  case h_1 caller dst args =>
    obtain ⟨_, rfl, server, pushed, ⟨⟩⟩ := result
    exact ⟨server, rfl, .event (.appendEntries (List.mem_of_getElem? found)) (noVote (by simp))
      pushed⟩
  case h_2 caller dst args =>
    obtain ⟨_, rfl, server, pushed, ⟨⟩⟩ := result
    exact ⟨server, rfl, .event (.requestVote (List.mem_of_getElem? found)) (noVote (by simp))
      pushed⟩
  case h_3 caller reply =>
    obtain ⟨_, rfl, number, -, server, received, ⟨⟩⟩ := result
    exact ⟨server, rfl, .reply found received⟩
  case h_4 caller src reply =>
    obtain ⟨_, rfl, server, polled, ⟨⟩⟩ := result
    exact ⟨server, rfl, .vote found polled⟩

theorem Server.act_takes (input : act.isInput = true) (result : sv.act cfg me net act = some out) :
    ∃ server, out = { server } ∧ sv.Takes me net act server := by
  cases act with
  | start command =>
      obtain ⟨server, pushed, rfl⟩ := Option.map_eq_some_iff.mp result
      exact ⟨server, rfl, .event .startCommand nofun pushed⟩
  | heartBeat =>
      simp only [Server.act, Server.heartBeat] at result
      split at result
      case h_1 follower =>
        obtain ⟨server, pushed, rfl⟩ := Option.map_eq_some_iff.mp result
        exact ⟨server, rfl, .event (.heartBeatTimeout follower) nofun pushed⟩
      case h_2 => cases result
  | election =>
      simp only [Server.act, Server.election] at result
      split at result
      case h_1 candidate =>
        obtain ⟨server, pushed, rfl⟩ := Option.map_eq_some_iff.mp result
        exact ⟨server, rfl, .event (.electionTimeout candidate) nofun pushed⟩
      case h_2 => cases result
  | receive index =>
      obtain ⟨msg, found, result⟩ := Option.bind_eq_some_iff.mp result
      exact receive_takes found result
  | _ => cases input

theorem Server.Takes.steps {server : Server α} (takes : sv.Takes me net act server)
    (input : act.isInput = true) (up : sv.up = true) : Steps cfg me net sv act { server } := by
  cases takes with
  | event arrives _ pushed =>
      obtain ⟨⟨running, room⟩, rfl⟩ := Server.push_eq_some.mp pushed
      exact .arrived input up arrives running room
  | reply found received =>
      have sent := List.mem_of_getElem? found
      obtain ⟨repl, repl', ev?, inside, receives, room, rfl⟩ := replReceive_eq_some received
      have receives := Replicator.receive_receives receives
      cases ev? with
      | none =>
          simp only [Option.toList_none, List.append_nil]
          exact .replied input up inside sent receives
      | some ev =>
          obtain ⟨running, room⟩ := room nofun
          exact .repliedEvent input up inside sent receives running room
  | vote found polled =>
      have sent := List.mem_of_getElem? found
      obtain ⟨cd, candidate, ⟨running, rfl⟩, waiting, answered, polls⟩ := votePolled_polls polled
      cases polls with
      | quiet => exact .polled input up candidate running waiting sent answered
      | event event room =>
          exact .polledEvent input up candidate running waiting sent answered event room

/-! ### The other steps -/

theorem Server.replStep_steps {number : Nat} (up : sv.up = true)
    (result : sv.replStep me number = some out) :
    Steps cfg me net sv (.repl number) out := by
  unfold Server.replStep at result
  simp only [Option.bind_eq_bind, Option.bind_eq_some_iff] at result
  obtain ⟨repl, found, result⟩ := result
  split at result
  case h_1 stepDown =>
    have returns (server : Server α) :
        repl.advance me server = some { repl with pc := .returned } := by
      simp only [Replicator.advance, stepDown]
    simp only [returns, Server.transRole, guard] at result
    split at result
    case isTrue running =>
      split at result
      case isTrue room =>
        cases result
        exact .steppedDown up found stepDown running room
      case isFalse => cases result
    case isFalse =>
      cases result
      exact .advanced up found (Replicator.advance_advances (returns sv))
  case h_2 =>
    rw [Option.bind_some] at result
    split at result
    case h_1 =>
      cases result
      exact .crashed up
    case h_2 advanced =>
      cases result
      exact .advanced up found (Replicator.advance_advances advanced)

/-- What a server that is up can do. -/
theorem Server.act_steps (up : sv.up = true) (result : sv.act cfg me net act = some out) :
    Steps cfg me net sv act out := by
  by_cases input : act.isInput = true
  · obtain ⟨server, rfl, takes⟩ := act_takes input result
    exact takes.steps input up
  unfold Server.act at result
  split at result
  case h_1 =>
    unfold Server.pop at result
    split at result
    case h_1 ev rest idle next =>
      simp only [Option.some.injEq] at result
      subst result
      unfold Server.orCrash
      cases handled : processEvent cfg me { sv with evCh := rest } ev with
      | none => exact .crashed up
      | some out => exact .popped up idle next (processEvent_handles handled)
    case h_2 => cases result
  case h_2 => exact exec_steps up result
  case h_3 => exact .applied up (applierStep_applies result)
  case h_4 index snapshot =>
    unfold Server.snapshotCall guard at result
    split at result
    case isTrue guarded =>
      cases result
      exact .snapshotCalled up guarded.1 guarded.2
    case isFalse => cases result
  case h_5 =>
    unfold Server.snapshotPush at result
    split at result
    case h_1 index snapshot calling =>
      simp only [Option.bind_eq_bind, Option.bind_eq_some_iff, push_eq_some] at result
      obtain ⟨_, ⟨⟨running, room⟩, rfl⟩, result⟩ := result
      cases result
      exact .snapshotPushed up calling running room
    case h_2 => cases result
  case h_6 | h_7 | h_8 | h_9 => exact absurd rfl input
  case h_10 => exact replStep_steps up result
  case h_11 =>
    simp only [Server.replCall, Option.bind_eq_bind, Option.bind_eq_some_iff] at result
    obtain ⟨repl, found, call, calling, result⟩ := result
    cases result
    exact .called up found calling
  case h_12 =>
    simp only [Server.replRefresh, Option.bind_eq_bind, Option.bind_eq_some_iff] at result
    obtain ⟨repl, found, result⟩ := result
    cases result
    exact .refreshed up found
  case h_13 =>
    cases result
    exact .crashed up
  case h_14 => cases result

end

/-- Every step of a cluster is a step of one of its servers. -/
theorem Cluster.outcome_steps {s : Cluster α} (outcome : s.outcome cfg label = some out) :
    label.server < cfg.peers ∧
      Steps cfg label.server s.net (s.servers label.server) label.act out := by
  unfold Cluster.outcome at outcome
  split at outcome
  case isFalse => cases outcome
  case isTrue inCluster =>
    refine ⟨inCluster, ?_⟩
    by_cases up : (s.servers label.server).up = true
    · rw [if_pos up] at outcome
      exact Server.act_steps up outcome
    · rw [if_neg up] at outcome
      split at outcome
      case h_1 restart =>
        simp only [Server.restart, Option.bind_eq_bind, Option.bind_eq_some_iff] at outcome
        obtain ⟨server, made, outcome⟩ := outcome
        cases outcome
        rw [restart]
        exact .restarted (by simpa using up) made
      case h_2 => cases outcome

theorem Cluster.outcome_act {s : Cluster α} (outcome : s.outcome cfg label = some out)
    (up : (s.servers label.server).up = true) :
    (s.servers label.server).act cfg label.server s.net label.act = some out := by
  unfold Cluster.outcome at outcome
  split at outcome
  case isTrue => rwa [if_pos up] at outcome
  case isFalse => cases outcome

theorem Cluster.step_steps {s s' : Cluster α} (taken : Cluster.step cfg label s = some s') :
    ∃ out, label.server < cfg.peers ∧
      Steps cfg label.server s.net (s.servers label.server) label.act out ∧
      s' = s.update label.server out := by
  simp only [Cluster.step, Option.map_eq_some_iff] at taken
  obtain ⟨out, outcome, rfl⟩ := taken
  obtain ⟨inCluster, steps⟩ := outcome_steps outcome
  exact ⟨out, inCluster, steps, rfl⟩

/-- A server that is down can only restart. -/
theorem Steps.restarts {me : Nat} {net : List (Msg α)} {sv : Server α}
    (steps : Steps cfg me net sv act out) (down : sv.up = false) :
    act = .restart ∧ make sv.persister sv.nextId = some out.server ∧ out.msgs = [] ∧
      out.obs = out.server.applier.reverse.map (.queued me) ++
        [.restarted me sv.persister.base] := by
  cases steps with
  | restarted _ made => exact ⟨rfl, made, rfl, rfl⟩
  | _ => simp_all

end GoLab.Raft
