import GoLab.Raft.Make

/-!
# The event handlers of the three roles

`follower.go`, `candidate.go`, `leader.go` and `processor` of `raft.go`.  A
handler receives the server with the event taken off the channel and leaves in
`todo` what comes after its first cut.  `none` is the crash of the process.

The term of a follower or candidate is stored and persisted in one step, that of
a leader in two: only a leader's replicators read the term in between.
-/

namespace GoLab.Raft

variable {α : Type}

namespace Follower

/-- `Follower.appendEntries`. -/
def appendEntries (cfg : Config) (me : Nat) (sv : Server α) (caller : Caller)
    (args : AppendEntriesArgs α) : Option (Out α) :=
  if args.term < sv.term then
    some { server := { sv with todo :=
      [.replyAppendEntries caller args { entryStatus := .entryStale, term := sv.term }] } }
  else do
    let (sv, obs) ← sv.adoptTerm me args.term
    match args.snapshot with
    | some snapshot =>
        return {
          server := { sv with
            logs := sv.logs.followerInstallSnapshot snapshot
            slice := Slice.nil
            todo := [.apply (.snapshot snapshot), .persist,
              .replyAppendEntries caller args { entryStatus := .entryMatch }] }
          obs }
    | none =>
        let sendEntries ← args.sendEntries
        let (logs, status, appended) ← sv.logs.followerAppendEntries sendEntries
        let kept := (sendEntries.prevLogInfo.index + 1 - sv.logs.offset).toNat
        let sv := if appended then sv.appendSlice cfg kept sendEntries.entries else sv
        let commit := status = .entryMatch ∧ args.entryType = .entryTLog
        return {
          server := { sv with
            logs
            todo := (if appended then [.persistState] else []) ++
              (if commit then [.updateCommit args.leaderCommit] else []) ++
              [.replyAppendEntries caller args { entryStatus := status }] }
          obs }

/-- `Follower.requestVote`. -/
def requestVote (me : Nat) (sv : Server α) (caller : Caller) (args : RequestVoteArgs) :
    Option (Out α) :=
  let answer (sv : Server α) (term : Int) (voteStatus : VoteStatus) : Server α :=
    { sv with todo := [.replyRequestVote caller args { term, voterID := me, voteStatus }] }
  if args.term < sv.term then
    some { server := answer sv sv.term .voteOther }
  else if args.term = sv.term then
    if sv.voteFor = some args.candidateID then
      some { server := answer sv 0 .voteGranted }
    else
      some { server := answer sv 0 .voteOther }
  else do
    let sv ← sv.setTerm args.term
    let upToDate ← sv.logs.atLeastUpToDate args.lastLogInfo
    if upToDate then
      return {
        server := answer { sv with voteFor := some args.candidateID } 0 .voteGranted
        obs := [.voted me args.term args.candidateID sv.logs.full, .saved me] }
    else
      return { server := answer sv 0 .voteOther, obs := [.saved me] }

/-- `Follower.process`; the other events are unknown to a follower. -/
def process (cfg : Config) (me : Nat) (sv : Server α) : Event α → Option (Out α)
  | .appendEntries caller args => appendEntries cfg me sv caller args
  | .requestVote caller args => requestVote me sv caller args
  | .heartBeatTimeout _ =>
      some { server := { sv with todo := [.transRole .candidateFromFollower] } }
  | _ => some { server := sv }

end Follower

namespace Candidate

/-- `Candidate.appendEntries`. -/
def appendEntries (me : Nat) (sv : Server α) (caller : Caller)
    (args : AppendEntriesArgs α) : Option (Out α) :=
  if args.term ≥ sv.term then do
    let (sv, obs) ← sv.adoptTerm me args.term
    return {
      server := { sv with todo := [.transRole .followerFromCandidate,
        .replyAppendEntries caller args { entryStatus := .entryHold }] }
      obs }
  else
    some { server := { sv with todo :=
      [.replyAppendEntries caller args { entryStatus := .entryStale, term := sv.term }] } }

/-- `Candidate.requestVote`; the reply does not name the voter. -/
def requestVote (me : Nat) (sv : Server α) (caller : Caller) (args : RequestVoteArgs) :
    Option (Out α) :=
  let answer (term : Int) (voteStatus : VoteStatus) : Server α :=
    { sv with todo := [.replyRequestVote caller args { term, voteStatus }] }
  if args.term < sv.term then
    some { server := answer sv.term .voteOther }
  else if args.term = sv.term then
    if sv.voteFor = some args.candidateID then
      some { server := answer args.term .voteGranted }
    else
      some { server := answer args.term .voteOther }
  else do
    let sv ← sv.setTerm args.term
    return {
      server := { sv with todo :=
        [.transRole .followerFromCandidate, .grantVote caller args] }
      obs := [.saved me] }

/-- `Candidate.auditVote`. -/
def auditVote (cfg : Config) (sv : Server α) (cd : Candidate) (term : Int) (voter : Nat) :
    Option (Out α) := do
  if sv.term = term then
    let counted ← cd.voters[voter]?
    if counted then
      return { server := sv }
    else
      let cd := { cd with voters := cd.voters.set voter true, votes := cd.votes + 1 }
      let todo := if cd.votes ≥ cfg.majorN then [.transRole .leaderFromCandidate] else []
      return { server := { sv with role := .candidate cd, todo } }
  else
    return { server := sv }

/-- `Candidate.process`. -/
def process (cfg : Config) (me : Nat) (sv : Server α) (cd : Candidate) :
    Event α → Option (Out α)
  | .appendEntries caller args => appendEntries me sv caller args
  | .requestVote caller args => requestVote me sv caller args
  | .voteGrant _ term voter => auditVote cfg sv cd term voter
  | .electionTimeout _ =>
      some { server := { sv with todo := [.transRole .followerFromCandidate] } }
  | .staleCandidate _ newTerm => do
      let (sv, obs) ← sv.adoptTerm me newTerm
      return {
        server := { sv with todo := [.transRole .followerFromCandidate] }
        obs }
  | _ => some { server := sv }

/-- `Candidate.activate` with `startElection`: the term is raised in memory only
and `voteFor` is left as it is. -/
def activate (cfg : Config) (me : Nat) (sv : Server α) : Option (Out α) := do
  let lastLogInfo ← sv.logs.lastLogInfo
  let args : RequestVoteArgs := { term := sv.term + 1, candidateID := me, lastLogInfo }
  let polls := (List.range cfg.peers).filter (· ≠ me)
  return {
    server := { sv with
      active := true
      term := sv.term + 1
      role := .candidate {
        args
        votes := 1
        voters := List.replicate cfg.peers false
        polls } }
    msgs := polls.map fun peer => .requestVote ⟨me, sv.roleId⟩ peer args
    obs := [.selfVote me sv.roleId (sv.term + 1) sv.logs.full] }

end Candidate

namespace Leader

/-- `Leader.appendEntries`; a request of the leader's own term is left without an
answer in the reply. -/
def appendEntries (sv : Server α) (caller : Caller) (args : AppendEntriesArgs α) :
    Option (Out α) :=
  let answer (entryStatus : EntryStatus) : Op α :=
    .replyAppendEntries caller args { entryStatus, term := sv.term }
  if args.term < sv.term then
    some { server := { sv with todo := [answer .entryStale] } }
  else if args.term = sv.term then
    some { server := { sv with todo := [answer .entryDefault] } }
  else do
    let raised ← sv.storeTerm args.term
    return { server := { raised with todo :=
      [.persistState, .transRole .followerFromLeader, answer .entryHold] } }

/-- `Leader.requestVote`; the reply does not name the voter. -/
def requestVote (sv : Server α) (caller : Caller) (args : RequestVoteArgs) :
    Option (Out α) :=
  if args.term ≤ sv.term then
    some { server := { sv with todo := [.replyRequestVote caller args
      { term := sv.term, voteStatus := .voteDenial }] } }
  else do
    let raised ← sv.storeTerm args.term
    return { server := { raised with todo :=
      [.persistState, .grantVote caller args, .transRole .followerFromLeader] } }

/-- The `StartCommandEvent` of `Leader.process`. -/
def start (cfg : Config) (me : Nat) (sv : Server α) (command : Option α) : Out α :=
  let et : LogEntry α := { commandIndex := 0, term := sv.term, content := command }
  let (sv, commandIndex) := sv.pushEntry cfg et
  { server := { sv with todo := [.persistState, .replyStart commandIndex sv.logs.lli] }
    obs := [.pushed me { et with commandIndex }] }

/-- `Leader.process`. -/
def process (cfg : Config) (me : Nat) (sv : Server α) (rc : ReplCounter) :
    Event α → Option (Out α)
  | .startCommand command => some (start cfg me sv command)
  | .appendEntries caller args => appendEntries sv caller args
  | .requestVote caller args => requestVote sv caller args
  | .replConfirm _ id startIndex endIndex => do
      let (rc, commit) ← rc.confirm cfg.majorN id startIndex endIndex
      return { server := { sv with
        role := .leader rc
        todo := (commit.map Op.updateCommit).toList } }
  | .staleLeader _ newTerm => do
      let raised ← sv.storeTerm newTerm
      return { server := { raised with todo :=
        [.persistState, .transRole .followerFromLeader] } }
  | _ => some { server := sv }

/-- `newReplicator` at the start of `matchIndex`. -/
def newReplicator (ld peer : Nat) : Replicator α :=
  { peerId := peer, ld, nextIndex := 0, pc := .outer (-1) }

/-- `Leader.activate` up to the store of `active`: nothing of it can be seen from
outside before the no-op entry is persisted. -/
def activate (cfg : Config) (me : Nat) (sv : Server α) : Option (Out α) := do
  let noop : LogEntry α := { commandIndex := noopIndex, term := sv.term, content := none }
  let (sv, _) := sv.pushEntry cfg noop
  let rc ← ReplCounter.new.watchIndex cfg.peers me sv.logs.lli
  let peers := (List.range cfg.peers).filter (· ≠ me)
  let sv := sv.persistState
  return {
    server := { sv with
      role := .leader rc
      repls := sv.repls ++ peers.map (newReplicator sv.roleId)
      todo := [.setActive] }
    obs := [.activated me sv.roleId sv.term sv.logs.full, .saved me] }

end Leader

/-- A `transFunc` applied to the present role; the type assertion of the role is
what can fail. -/
def TransFunc.apply : TransFunc → Role → Option Role
  | .candidateFromFollower, .follower =>
      some (.candidate { args := ⟨0, 0, ⟨0, 0⟩⟩, votes := 0, voters := [], polls := [] })
  | .followerFromCandidate, .candidate _ => some .follower
  | .leaderFromCandidate, .candidate _ => some (.leader .new)
  | .followerFromLeader, .leader _ => some .follower
  | _, _ => none

/-- `rf.role.activate()`. -/
def activate (cfg : Config) (me : Nat) (sv : Server α) : Option (Out α) :=
  match sv.role with
  | .follower => some { server := { sv with active := true } }
  | .candidate _ => Candidate.activate cfg me sv
  | .leader _ => Leader.activate cfg me sv

/-- `discardEv`: the callers learn that nobody answered. -/
def discardEv (me : Nat) (sv : Server α) : Event α → Out α
  | .requestVote caller _ => { server := sv, msgs := [.requestVoteReply caller me {}] }
  | .appendEntries caller _ => { server := sv, msgs := [.appendEntriesReply caller {}] }
  | _ => { server := sv }

/-- `rf.role.process(ev)`. -/
def processRole (cfg : Config) (me : Nat) (sv : Server α) (ev : Event α) : Option (Out α) :=
  match sv.role with
  | .follower => Follower.process cfg me sv ev
  | .candidate cd => Candidate.process cfg me sv cd ev
  | .leader rc => Leader.process cfg me sv rc ev

/-- One round of `processor`. -/
def processEvent (cfg : Config) (me : Nat) (sv : Server α) (ev : Event α) :
    Option (Out α) :=
  match ev with
  | .trans transFunc =>
      match transFunc with
      | none => activate cfg me sv
      | some transFunc => do
          let role ← transFunc.apply sv.role
          activate cfg me { sv with role, roleId := sv.nextId, nextId := sv.nextId + 1 }
  | .snapshot index snapshot =>
      if sv.active then do
        let logs ← sv.logs.takeSnapshot index snapshot
        let slice := sv.slice.dropFirst (sv.logs.entries.length - logs.entries.length)
        let sv := ({ sv with logs, slice } : Server α).persist
        return { server := { sv with todo := [.replySnapshot true] }, obs := [.saved me] }
      else
        some { server := { sv with todo := [.replySnapshot false] } }
  | ev =>
      if sv.active then
        processRole cfg me sv ev
      else
        some (discardEv me sv ev)

end GoLab.Raft
