import GoLab.Raft.Cluster

/-!
# What the processor can do with an event

`Handles` lists the outcomes of one round of the processor, with what each one
presupposes.  The invariants are proved by cases on it; none of them unfolds a
handler again.
-/

namespace GoLab.Raft

variable {α : Type}
variable {sv : Server α} {out : Out α} {term : Int} {caller : Caller}

namespace Server

/-- The server after `adoptTerm`. -/
def raiseTo (sv : Server α) (term : Int) : Server α :=
  { sv with
    term := if sv.term < term then term else sv.term
    voteFor := if sv.term < term then none else sv.voteFor
    persister := if sv.term < term then
        ({ sv with term, voteFor := none } : Server α).persistState.persister
      else sv.persister }

attribute [simps up role roleId active logs heap slice evCh todo repls applier hand service
  received nextId] raiseTo

/-- What `raiseTo` adds to the history. -/
def raiseObs (me : Nat) (sv : Server α) (term : Int) : List (Obs α) :=
  if sv.term < term then [.saved me] else []

theorem raiseObs_of_lt {me : Nat} (larger : sv.term < term) :
    sv.raiseObs me term = [.saved me] :=
  if_pos larger

@[simp] theorem mem_raiseObs {me : Nat} {obs : Obs α} :
    obs ∈ sv.raiseObs me term ↔ sv.term < term ∧ obs = .saved me := by
  unfold raiseObs
  split <;> simp [*]

theorem setTerm_of_lt (larger : sv.term < term) :
    sv.setTerm term = some (({ sv with term, voteFor := none } : Server α).persistState) := by
  simp [setTerm, storeTerm, guard, larger]

theorem raiseTo_of_lt (larger : sv.term < term) :
    sv.raiseTo term = ({ sv with term, voteFor := none } : Server α).persistState := by
  simp [raiseTo, persistState, larger]

theorem raised_of_lt (larger : sv.term < term) :
    (sv.raiseTo term).term = term ∧ (sv.raiseTo term).voteFor = none ∧
      (sv.raiseTo term).persister.term = term ∧ (sv.raiseTo term).persister.voteFor = none := by
  rw [raiseTo_of_lt larger]
  exact ⟨rfl, rfl, rfl, rfl⟩

theorem setTerm_eq_raiseTo (larger : sv.term < term) :
    sv.setTerm term = some (sv.raiseTo term) := by
  rw [setTerm_of_lt larger, raiseTo_of_lt larger]

theorem raiseTo_of_le (notLarger : term ≤ sv.term) :
    sv.raiseTo term = sv := by
  simp [raiseTo, Int.not_lt.mpr notLarger]

theorem storeTerm_of_lt (larger : sv.term < term) :
    sv.storeTerm term = some { sv with term, voteFor := none } := by
  simp [storeTerm, guard, larger]

theorem lt_of_storeTerm {sv raised : Server α} (stored : sv.storeTerm term = some raised) :
    sv.term < term := by
  unfold storeTerm guard at stored
  split at stored
  case isTrue larger => exact larger
  case isFalse => cases stored

theorem adoptTerm_eq (me : Nat) (sv : Server α) (term : Int) :
    sv.adoptTerm me term = some (sv.raiseTo term, sv.raiseObs me term) := by
  unfold adoptTerm raiseObs
  split
  case isTrue larger => rw [setTerm_eq_raiseTo larger, Option.map_some]
  case isFalse notLarger => rw [raiseTo_of_le (Int.not_lt.mp notLarger)]

end Server

/-- The role a `TransEvent` puts in place, with its identity and the next one. -/
inductive Transformed (sv : Server α) : Option TransFunc → Role → Nat → Nat → Prop where
  | same {role : Role} (unchanged : sv.role = role) :
      Transformed sv none role sv.roleId sv.nextId
  | new {transFunc : TransFunc} {role : Role} (cast : transFunc.apply sv.role = some role) :
      Transformed sv (some transFunc) role sv.nextId (sv.nextId + 1)

/-- The replies `discardEv` hands out. -/
def Refusal (me : Nat) (msgs : List (Msg α)) : Prop :=
  msgs = [] ∨ (∃ caller, msgs = [.requestVoteReply caller me {}]) ∨
    ∃ caller, msgs = [.appendEntriesReply caller {}]

/-- Outcomes of `processEvent` that are not a crash. -/
inductive Handles (cfg : Config) (me : Nat) (sv : Server α) : Event α → Out α → Prop where
  /-- The event is discarded, unknown to the role, or changes nothing. -/
  | ignored {ev : Event α} {msgs : List (Msg α)} (refusal : Refusal me msgs)
      (other : ∀ transFunc, ev ≠ .trans transFunc)
      (inner : ∀ index snapshot, ev ≠ .snapshot index snapshot) :
      Handles cfg me sv ev { server := sv, msgs }
  /-- A request that is answered without a change. -/
  | appendAnswered {caller : Caller} {args : AppendEntriesArgs α}
      {reply : AppendEntriesReply} (running : sv.active = true)
      (status : (reply.entryStatus = .entryStale ∧ args.term < sv.term ∧
          reply.term = sv.term) ∨
        (reply.entryStatus = .entryDefault ∧ args.term = sv.term ∧
          ∃ rc, sv.role = .leader rc)) :
      Handles cfg me sv (.appendEntries caller args)
        { server := { sv with todo := [.replyAppendEntries caller args reply] } }
  | installed {caller : Caller} {args : AppendEntriesArgs α} {snapshot : Snapshot α}
      (running : sv.active = true) (follower : sv.role = .follower)
      (current : sv.term ≤ args.term) (carried : args.snapshot = some snapshot) :
      Handles cfg me sv (.appendEntries caller args) {
        server := { sv.raiseTo args.term with
          logs := sv.logs.followerInstallSnapshot snapshot
          slice := Slice.nil
          todo := [.apply (.snapshot snapshot), .persist,
            .replyAppendEntries caller args { entryStatus := .entryMatch }] }
        obs := sv.raiseObs me args.term }
  | appended {caller : Caller} {args : AppendEntriesArgs α} {sendEntries : SendEntries α}
      {logs : Logs α} {status : EntryStatus} {appended : Bool} {heap : Heap (LogEntry α)}
      {slice : Slice} (running : sv.active = true) (follower : sv.role = .follower)
      (current : sv.term ≤ args.term) (plain : args.snapshot = none)
      (carried : args.sendEntries = some sendEntries)
      (result : sv.logs.followerAppendEntries sendEntries = some (logs, status, appended))
      (memory : (heap, slice) = if appended then
          (sv.slice.takeFirst
            (sendEntries.prevLogInfo.index + 1 - sv.logs.offset).toNat).append cfg.grow
              sv.heap sendEntries.entries
        else (sv.heap, sv.slice)) :
      Handles cfg me sv (.appendEntries caller args) {
        server := { sv.raiseTo args.term with
          heap
          slice
          logs
          todo := (if appended then [.persistState] else []) ++
            (if status = .entryMatch ∧ args.entryType = .entryTLog then
              [.updateCommit args.leaderCommit] else []) ++
            [.replyAppendEntries caller args { entryStatus := status }] }
        obs := sv.raiseObs me args.term }
  /-- A vote that is refused without a change. -/
  | voteRefused {caller : Caller} {args : RequestVoteArgs} {reply : RequestVoteReply}
      (running : sv.active = true) (refused : reply.voteStatus ≠ .voteGranted) :
      Handles cfg me sv (.requestVote caller args)
        { server := { sv with todo := [.replyRequestVote caller args reply] } }
  /-- The vote `voteFor` remembers is given again. -/
  | voteRepeated {caller : Caller} {args : RequestVoteArgs} {reply : RequestVoteReply}
      (running : sv.active = true) (notLeader : ∀ rc, sv.role ≠ .leader rc)
      (equal : args.term = sv.term) (remembered : sv.voteFor = some args.candidateID)
      (granted : reply.voteStatus = .voteGranted) :
      Handles cfg me sv (.requestVote caller args)
        { server := { sv with todo := [.replyRequestVote caller args reply] } }
  | voteGiven {caller : Caller} {args : RequestVoteArgs} {reply : RequestVoteReply}
      (running : sv.active = true) (follower : sv.role = .follower)
      (larger : sv.term < args.term)
      (upToDate : sv.logs.atLeastUpToDate args.lastLogInfo = some true)
      (granted : reply.voteStatus = .voteGranted) :
      Handles cfg me sv (.requestVote caller args) {
        server := { sv.raiseTo args.term with
          voteFor := some args.candidateID
          todo := [.replyRequestVote caller args reply] }
        obs := [.voted me args.term args.candidateID sv.logs.full, .saved me] }
  | voteDenied {caller : Caller} {args : RequestVoteArgs} {reply : RequestVoteReply}
      (running : sv.active = true) (follower : sv.role = .follower)
      (larger : sv.term < args.term) (refused : reply.voteStatus ≠ .voteGranted) :
      Handles cfg me sv (.requestVote caller args) {
        server := { sv.raiseTo args.term with
          todo := [.replyRequestVote caller args reply] }
        obs := [.saved me] }
  | candidateVote {caller : Caller} {args : RequestVoteArgs} {cd : Candidate}
      (running : sv.active = true) (candidate : sv.role = .candidate cd)
      (larger : sv.term < args.term) :
      Handles cfg me sv (.requestVote caller args) {
        server := { sv.raiseTo args.term with
          todo := [.transRole .followerFromCandidate, .grantVote caller args] }
        obs := [.saved me] }
  | leaderVote {caller : Caller} {args : RequestVoteArgs} {rc : ReplCounter}
      (running : sv.active = true) (leader : sv.role = .leader rc)
      (larger : sv.term < args.term) :
      Handles cfg me sv (.requestVote caller args) {
        server := { sv with
          term := args.term
          voteFor := none
          todo := [.persistState, .grantVote caller args, .transRole .followerFromLeader] } }
  | candidateHold {caller : Caller} {args : AppendEntriesArgs α} {cd : Candidate}
      (running : sv.active = true) (candidate : sv.role = .candidate cd)
      (current : sv.term ≤ args.term) :
      Handles cfg me sv (.appendEntries caller args) {
        server := { sv.raiseTo args.term with
          todo := [.transRole .followerFromCandidate,
            .replyAppendEntries caller args { entryStatus := .entryHold }] }
        obs := sv.raiseObs me args.term }
  | leaderHold {caller : Caller} {args : AppendEntriesArgs α} {rc : ReplCounter}
      (running : sv.active = true) (leader : sv.role = .leader rc)
      (larger : sv.term < args.term) :
      Handles cfg me sv (.appendEntries caller args) {
        server := { sv with
          term := args.term
          voteFor := none
          todo := [.persistState, .transRole .followerFromLeader,
            .replyAppendEntries caller args
              { entryStatus := .entryHold, term := sv.term }] } }
  | heartBeat {role : Nat} (running : sv.active = true) (follower : sv.role = .follower) :
      Handles cfg me sv (.heartBeatTimeout role)
        { server := { sv with todo := [.transRole .candidateFromFollower] } }
  | electionOver {role : Nat} {cd : Candidate} (running : sv.active = true)
      (candidate : sv.role = .candidate cd) :
      Handles cfg me sv (.electionTimeout role)
        { server := { sv with todo := [.transRole .followerFromCandidate] } }
  | staleCandidate {role : Nat} {newTerm : Int} {cd : Candidate} (running : sv.active = true)
      (candidate : sv.role = .candidate cd) :
      Handles cfg me sv (.staleCandidate role newTerm) {
        server := { sv.raiseTo newTerm with todo := [.transRole .followerFromCandidate] }
        obs := sv.raiseObs me newTerm }
  | staleLeader {role : Nat} {newTerm : Int} {rc : ReplCounter} (running : sv.active = true)
      (leader : sv.role = .leader rc) (larger : sv.term < newTerm) :
      Handles cfg me sv (.staleLeader role newTerm) {
        server := { sv with
          term := newTerm
          voteFor := none
          todo := [.persistState, .transRole .followerFromLeader] } }
  | counted {role voter : Nat} {term : Int} {cd cd' : Candidate} (running : sv.active = true)
      (candidate : sv.role = .candidate cd) (equal : sv.term = term)
      (fresh : cd.voters[voter]? = some false)
      (counted : cd' = { cd with voters := cd.voters.set voter true, votes := cd.votes + 1 }) :
      Handles cfg me sv (.voteGrant role term voter) { server := { sv with
        role := .candidate cd'
        todo := if cd'.votes ≥ cfg.majorN then [.transRole .leaderFromCandidate] else [] } }
  | started {command : Option α} {rc : ReplCounter} {logs : Logs α} {commandIndex : Int}
      {heap : Heap (LogEntry α)} {slice : Slice} (running : sv.active = true)
      (leader : sv.role = .leader rc)
      (pushed : sv.logs.pushEntry { commandIndex := 0, term := sv.term, content := command } =
        (logs, commandIndex))
      (memory : (heap, slice) = (sv.slice.takeFirst sv.logs.entries.length).append cfg.grow
        sv.heap (logs.entries.drop sv.logs.entries.length)) :
      Handles cfg me sv (.startCommand command) {
        server := { sv with
          heap
          slice
          logs
          todo := [.persistState, .replyStart commandIndex logs.lli] }
        obs := [.pushed me { commandIndex, term := sv.term, content := command }] }
  | confirmed {role id : Nat} {startIndex endIndex : Int} {rc rc' : ReplCounter}
      {commit : Option Int} (running : sv.active = true) (leader : sv.role = .leader rc)
      (result : rc.confirm cfg.majorN id startIndex endIndex = some (rc', commit)) :
      Handles cfg me sv (.replConfirm role id startIndex endIndex) { server := { sv with
        role := .leader rc'
        todo := (commit.map Op.updateCommit).toList } }
  | becameFollower {transFunc : Option TransFunc} {roleId nextId : Nat}
      (trans : Transformed sv transFunc .follower roleId nextId) :
      Handles cfg me sv (.trans transFunc)
        { server := { sv with role := .follower, roleId, nextId, active := true } }
  | becameCandidate {transFunc : Option TransFunc} {cd : Candidate} {roleId nextId : Nat}
      {lastLogInfo : LogInfo} {args : RequestVoteArgs} {polls : List Nat}
      (trans : Transformed sv transFunc (.candidate cd) roleId nextId)
      (last : sv.logs.lastLogInfo = some lastLogInfo)
      (asked : args = { term := sv.term + 1, candidateID := me, lastLogInfo })
      (peers : polls = (List.range cfg.peers).filter (· ≠ me)) :
      Handles cfg me sv (.trans transFunc) {
        server := { sv with
          role := .candidate {
            args, votes := 1, voters := List.replicate cfg.peers false, polls }
          roleId
          nextId
          active := true
          term := sv.term + 1 }
        msgs := polls.map fun peer => .requestVote ⟨me, roleId⟩ peer args
        obs := [.selfVote me roleId (sv.term + 1) sv.logs.full] }
  | becameLeader {transFunc : Option TransFunc} {rc rc' : ReplCounter} {roleId nextId : Nat}
      {logs : Logs α} {commandIndex : Int} {heap : Heap (LogEntry α)} {slice : Slice}
      (trans : Transformed sv transFunc (.leader rc) roleId nextId)
      (pushed : sv.logs.pushEntry
        { commandIndex := noopIndex, term := sv.term, content := none } = (logs, commandIndex))
      (memory : (heap, slice) = (sv.slice.takeFirst sv.logs.entries.length).append cfg.grow
        sv.heap (logs.entries.drop sv.logs.entries.length))
      (watched : ReplCounter.new.watchIndex cfg.peers me logs.lli = some rc') :
      Handles cfg me sv (.trans transFunc) {
        server := { ({ sv with heap, slice, logs } : Server α).persistState with
          role := .leader rc'
          roleId
          nextId
          repls := sv.repls ++ ((List.range cfg.peers).filter (· ≠ me)).map
            (Leader.newReplicator roleId)
          todo := [.setActive] }
        obs := [.activated me roleId sv.term logs.full, .saved me] }
  | snapshotTaken {index : Int} {snapshot : List UInt8} {logs : Logs α}
      (running : sv.active = true) (taken : sv.logs.takeSnapshot index snapshot = some logs) :
      Handles cfg me sv (.snapshot index snapshot) {
        server := { ({ sv with
            logs
            slice := sv.slice.dropFirst (sv.logs.entries.length - logs.entries.length)
          } : Server α).persist with todo := [.replySnapshot true] }
        obs := [.saved me] }
  | snapshotRefused {index : Int} {snapshot : List UInt8} (stopped : sv.active = false) :
      Handles cfg me sv (.snapshot index snapshot)
        { server := { sv with todo := [.replySnapshot false] } }

section

variable {cfg : Config} {me : Nat}

section

variable (running : sv.active = true)
include running

theorem Follower.appendEntries_handles {args : AppendEntriesArgs α} (follower : sv.role = .follower)
    (result : Follower.appendEntries cfg me sv caller args = some out) :
    Handles cfg me sv (.appendEntries caller args) out := by
  unfold Follower.appendEntries at result
  split at result
  case isTrue stale =>
    cases result
    exact .appendAnswered running (.inl ⟨rfl, stale, rfl⟩)
  case isFalse current =>
    simp only [Server.adoptTerm_eq, Option.bind_eq_bind, Option.bind_some] at result
    split at result
    case h_1 snapshot carried =>
      cases result
      exact .installed running follower (by omega) carried
    case h_2 plain =>
      simp only [Option.bind_eq_some_iff] at result
      obtain ⟨sendEntries, carried, ⟨logs, status, appended⟩, appendResult, result⟩ := result
      cases result
      cases appended with
      | true => exact .appended running follower (by omega) plain carried appendResult rfl
      | false => exact .appended running follower (by omega) plain carried appendResult rfl

theorem Follower.requestVote_handles {args : RequestVoteArgs} (follower : sv.role = .follower)
    (result : Follower.requestVote me sv caller args = some out) :
    Handles cfg me sv (.requestVote caller args) out := by
  have notLeader : ∀ rc, sv.role ≠ .leader rc := by simp [follower]
  unfold Follower.requestVote at result
  dsimp only at result
  split at result
  case isTrue =>
    cases result
    exact .voteRefused running (by simp)
  split at result
  case isTrue equal =>
    split at result
    case isTrue remembered =>
      cases result
      exact .voteRepeated running notLeader equal remembered rfl
    case isFalse =>
      cases result
      exact .voteRefused running (by simp)
  case isFalse notLess notEqual =>
    have larger : sv.term < args.term := by omega
    rw [Server.setTerm_eq_raiseTo larger] at result
    simp only [Option.bind_eq_bind, Option.bind_some, Option.bind_eq_some_iff] at result
    obtain ⟨upToDate, upToDateEq, result⟩ := result
    cases upToDate with
    | true =>
        cases result
        exact .voteGiven running follower larger upToDateEq rfl
    | false =>
        cases result
        exact .voteDenied running follower larger (by simp)

theorem Candidate.appendEntries_handles {cd : Candidate} {args : AppendEntriesArgs α}
    (candidate : sv.role = .candidate cd)
    (result : Candidate.appendEntries me sv caller args = some out) :
    Handles cfg me sv (.appendEntries caller args) out := by
  unfold Candidate.appendEntries at result
  split at result
  case isTrue current =>
    rw [Server.adoptTerm_eq] at result
    cases result
    exact .candidateHold running candidate current
  case isFalse stale =>
    cases result
    exact .appendAnswered running (.inl ⟨rfl, by omega, rfl⟩)

theorem Candidate.requestVote_handles {cd : Candidate} {args : RequestVoteArgs}
    (candidate : sv.role = .candidate cd)
    (result : Candidate.requestVote me sv caller args = some out) :
    Handles cfg me sv (.requestVote caller args) out := by
  have notLeader : ∀ rc, sv.role ≠ .leader rc := by simp [candidate]
  unfold Candidate.requestVote at result
  dsimp only at result
  split at result
  case isTrue =>
    cases result
    exact .voteRefused running (by simp)
  split at result
  case isTrue equal =>
    split at result
    case isTrue remembered =>
      cases result
      exact .voteRepeated running notLeader equal remembered rfl
    case isFalse =>
      cases result
      exact .voteRefused running (by simp)
  case isFalse notLess notEqual =>
    have larger : sv.term < args.term := by omega
    rw [Server.setTerm_eq_raiseTo larger] at result
    cases result
    exact .candidateVote running candidate larger

theorem Candidate.auditVote_handles {cd : Candidate} {role voter : Nat}
    (candidate : sv.role = .candidate cd)
    (result : Candidate.auditVote cfg sv cd term voter = some out) :
    Handles cfg me sv (.voteGrant role term voter) out := by
  unfold Candidate.auditVote at result
  have unchanged : Handles cfg me sv (.voteGrant role term voter) { server := sv } :=
    .ignored (.inl rfl) (by simp) (by simp)
  split at result
  case isTrue equal =>
    simp only [Option.bind_eq_bind, Option.bind_eq_some_iff] at result
    obtain ⟨counted, voterEq, result⟩ := result
    cases counted with
    | true =>
        cases result
        exact unchanged
    | false =>
        cases result
        exact .counted running candidate equal voterEq rfl
  case isFalse =>
    cases result
    exact unchanged

theorem Leader.appendEntries_handles {rc : ReplCounter} {args : AppendEntriesArgs α}
    (leader : sv.role = .leader rc) (result : Leader.appendEntries sv caller args = some out) :
    Handles cfg me sv (.appendEntries caller args) out := by
  unfold Leader.appendEntries at result
  dsimp only at result
  split at result
  case isTrue stale =>
    cases result
    exact .appendAnswered running (.inl ⟨rfl, stale, rfl⟩)
  split at result
  case isTrue equal =>
    cases result
    exact .appendAnswered running (.inr ⟨rfl, equal, rc, leader⟩)
  case isFalse notLess notEqual =>
    have larger : sv.term < args.term := by omega
    rw [Server.storeTerm_of_lt larger] at result
    cases result
    exact .leaderHold running leader larger

theorem Leader.requestVote_handles {rc : ReplCounter} {args : RequestVoteArgs}
    (leader : sv.role = .leader rc) (result : Leader.requestVote sv caller args = some out) :
    Handles cfg me sv (.requestVote caller args) out := by
  unfold Leader.requestVote at result
  split at result
  case isTrue =>
    cases result
    exact .voteRefused running (by simp)
  case isFalse notLessEq =>
    have larger : sv.term < args.term := by omega
    rw [Server.storeTerm_of_lt larger] at result
    cases result
    exact .leaderVote running leader larger

/-- What the processor does with an event of the present role. -/
theorem processRole_handles {ev : Event α} (other : ∀ transFunc, ev ≠ .trans transFunc)
    (inner : ∀ index snapshot, ev ≠ .snapshot index snapshot)
    (result : processRole cfg me sv ev = some out) : Handles cfg me sv ev out := by
  have unknown : Handles cfg me sv ev { server := sv } := .ignored (.inl rfl) other inner
  unfold processRole at result
  split at result
  case h_1 follower =>
    unfold Follower.process at result
    split at result
    case h_1 => exact Follower.appendEntries_handles running follower result
    case h_2 => exact Follower.requestVote_handles running follower result
    case h_3 =>
      cases result
      exact .heartBeat running follower
    case h_4 =>
      cases result
      exact unknown
  case h_2 cd candidate =>
    unfold Candidate.process at result
    split at result
    case h_1 => exact Candidate.appendEntries_handles running candidate result
    case h_2 => exact Candidate.requestVote_handles running candidate result
    case h_3 => exact Candidate.auditVote_handles running candidate result
    case h_4 =>
      cases result
      exact .electionOver running candidate
    case h_5 =>
      rw [Server.adoptTerm_eq] at result
      cases result
      exact .staleCandidate running candidate
    case h_6 =>
      cases result
      exact unknown
  case h_3 rc leader =>
    unfold Leader.process at result
    split at result
    case h_1 =>
      cases result
      exact .started running leader rfl rfl
    case h_2 => exact Leader.appendEntries_handles running leader result
    case h_3 => exact Leader.requestVote_handles running leader result
    case h_4 =>
      simp only [Option.bind_eq_bind, Option.bind_eq_some_iff] at result
      obtain ⟨⟨rc', commit⟩, confirmed, result⟩ := result
      cases result
      exact .confirmed running leader confirmed
    case h_5 =>
      simp only [Option.bind_eq_bind, Option.bind_eq_some_iff] at result
      obtain ⟨raised, stored, result⟩ := result
      have larger := Server.lt_of_storeTerm stored
      rw [Server.storeTerm_of_lt larger] at stored
      cases stored
      cases result
      exact .staleLeader running leader larger
    case h_6 =>
      cases result
      exact unknown

end

/-- What the activation of a role does. -/
theorem activate_handles {transFunc : Option TransFunc} {role : Role} {roleId nextId : Nat}
    (trans : Transformed sv transFunc role roleId nextId)
    (result : activate cfg me { sv with role, roleId, nextId } = some out) :
    Handles cfg me sv (.trans transFunc) out := by
  unfold activate at result
  cases role with
  | follower =>
      cases result
      exact .becameFollower trans
  | candidate cd =>
      simp only [Candidate.activate, Option.bind_eq_bind, Option.bind_eq_some_iff] at result
      obtain ⟨lastLogInfo, last, result⟩ := result
      cases result
      exact .becameCandidate trans last rfl rfl
  | leader rc =>
      simp only [Leader.activate, Option.bind_eq_bind, Option.bind_eq_some_iff] at result
      obtain ⟨rc', watched, result⟩ := result
      cases result
      exact .becameLeader trans rfl rfl watched

/-- What one round of the processor can do. -/
theorem processEvent_handles {ev : Event α} (result : processEvent cfg me sv ev = some out) :
    Handles cfg me sv ev out := by
  unfold processEvent at result
  split at result
  case h_1 transFunc =>
    split at result
    case h_1 => exact activate_handles (.same rfl) result
    case h_2 transFunc =>
      simp only [Option.bind_eq_bind, Option.bind_eq_some_iff] at result
      obtain ⟨role, cast, result⟩ := result
      exact activate_handles (.new cast) result
  case h_2 index snapshot =>
    split at result
    case isTrue running =>
      simp only [Option.bind_eq_bind, Option.bind_eq_some_iff] at result
      obtain ⟨logs, taken, result⟩ := result
      cases result
      exact .snapshotTaken running taken
    case isFalse stopped =>
      cases result
      exact .snapshotRefused (by simpa using stopped)
  case h_3 other inner =>
    split at result
    case isTrue running => exact processRole_handles running other inner result
    case isFalse =>
      cases result
      cases ev with
      | trans transFunc => exact (other transFunc rfl).elim
      | snapshot index snapshot => exact (inner index snapshot rfl).elim
      | requestVote caller args =>
          exact .ignored (.inr (.inl ⟨caller, rfl⟩)) other inner
      | appendEntries caller args =>
          exact .ignored (.inr (.inr ⟨caller, rfl⟩)) other inner
      | _ => exact .ignored (.inl rfl) other inner

end

/-! ## What no handler touches -/

namespace Handles

variable {cfg : Config} {me : Nat} {ev : Event α}

section

variable (handles : Handles cfg me sv ev out)
include handles

theorem evCh_eq : out.server.evCh = sv.evCh := by
  cases handles <;> rfl

theorem applier_eq :
    out.server.applier = sv.applier := by
  cases handles <;> rfl

theorem hand_eq : out.server.hand = sv.hand := by
  cases handles <;> rfl

theorem service_eq :
    out.server.service = sv.service := by
  cases handles <;> rfl

theorem received_eq :
    out.server.received = sv.received := by
  cases handles <;> rfl

end

end Handles

end GoLab.Raft
