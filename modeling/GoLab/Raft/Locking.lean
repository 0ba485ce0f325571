import GoLab.Lib.LockTrace
import GoLab.Raft.Handles

/-!
# The locks an event handler takes

`Logs` embeds a read-write lock, and the two functions that write to the persister hold
`saveLock`.  The handlers are followed here with their operations on these two locks, in the
order of the source and without the other goroutines.  The functions are those of `log.go`
and `persist.go` under their names; a handler is followed to its last operation on a lock, and
what it sends or answers is left out.
-/

namespace GoLab.Raft

variable {α : Type}

inductive Mutex where
  | logs
  | saveLock
  deriving DecidableEq, Repr

namespace Locking

/-! ## `persist.go` -/

/-- `encodeState`. -/
def encodeState (sv : Server α) : Traced Mutex (PersistentState α) :=
  Traced.rLocked .logs (pure sv.encodeState)

/-- `persistState`. -/
def persistState (sv : Server α) : Traced Mutex (Server α) :=
  Traced.locked .saveLock do
    let state ← encodeState sv
    return { sv with persister := { sv.persister with raftstate := some state } }

/-- `persist`. -/
def persist (sv : Server α) : Traced Mutex (Server α) :=
  Traced.locked .saveLock do
    let state ← encodeState sv
    return { sv with persister := {
      raftstate := some state
      snapshot := (sv.logs.snapshot.map Snapshot.snapshot).getD [] } }

/-- `setTerm`. -/
def setTerm (sv : Server α) (term : Int) : Traced Mutex (Server α) := do
  let sv ← Traced.ofOption (sv.storeTerm term)
  persistState sv

/-- `setTerm` behind the check that the term is larger. -/
def adoptTerm (sv : Server α) (term : Int) : Traced Mutex (Server α) :=
  if term > sv.term then setTerm sv term else pure sv

/-! ## `log.go` -/

/-- `lastLogInfo`. -/
def lastLogInfo (sv : Server α) : Traced Mutex LogInfo :=
  Traced.rLocked .logs (.ofOption sv.logs.lastLogInfo)

/-- `atLeastUpToDate`. -/
def atLeastUpToDate (sv : Server α) (lg : LogInfo) : Traced Mutex Bool := do
  let myLast ← lastLogInfo sv
  if myLast.term = lg.term then
    return decide (myLast.index ≤ lg.index)
  else
    return decide (myLast.term < lg.term)

/-- `pushEntry`. -/
def pushEntry (sv : Server α) (et : LogEntry α) : Traced Mutex (Server α) :=
  Traced.locked .logs (pure { sv with logs := (sv.logs.pushEntry et).1 })

/-- `pushEntries`. -/
def pushEntries (sv : Server α) (ets : List (LogEntry α)) : Traced Mutex (Server α) :=
  Traced.locked .logs (pure { sv with logs := sv.logs.pushEntries ets })

/-- `removeAfter`. -/
def removeAfter (sv : Server α) (idx : Int) : Traced Mutex (Server α) :=
  Traced.locked .logs do
    let logs ← Traced.ofOption (sv.logs.removeAfter idx)
    return { sv with logs }

/-- `leaderAppendEntry`. -/
def leaderAppendEntry (sv : Server α) (et : LogEntry α) : Traced Mutex (Server α) := do
  let sv ← pushEntry sv et
  persistState sv

/-- `updateCommit`; it reads the entries without the lock. -/
def updateCommit (sv : Server α) (leaderCommit : Int) : Traced Mutex (Server α) := do
  match ← Traced.ofOption (sv.logs.updateCommit leaderCommit) with
  | (_, none) => return sv
  | (logs, some _) => persistState { sv with logs }

/-- The branch of `followerAppendEntries` that writes. -/
def replaceAfter (sv : Server α) (idx : Int) (ets : List (LogEntry α)) :
    Traced Mutex (Server α) :=
  if idx < sv.logs.lli then do
    let sv ← removeAfter sv idx
    pushEntries sv ets
  else
    pushEntries sv ets

/-- `followerAppendEntries`; it looks at the entry before the new ones without the lock. -/
def followerAppendEntries (sv : Server α) (args : SendEntries α) :
    Traced Mutex (Server α × EntryStatus) :=
  let prev := args.prevLogInfo
  let ets := args.entries
  if prev.index < sv.logs.lci then
    return (sv, .entryMatch)
  else if prev.index < -1 then
    return (sv, .entryUnmatch)
  else if prev.index > sv.logs.lli then
    return (sv, .entryUnmatch)
  else do
    let matched ← Traced.ofOption (sv.logs.matchesPrev prev)
    if matched then
      if ets.length > 0 then
        let sv ← replaceAfter sv prev.index ets
        let sv ← persistState sv
        return (sv, .entryMatch)
      else
        return (sv, .entryMatch)
    else
      return (sv, .entryUnmatch)

/-- `followerInstallSnapshot`. -/
def followerInstallSnapshot (sv : Server α) (snapshot : Snapshot α) :
    Traced Mutex (Server α) :=
  Traced.locked .logs (persist { sv with logs := sv.logs.followerInstallSnapshot snapshot })

/-- The entry `takeSnapshot` finds, with its two assertions. -/
def searched (logs : Logs α) (cmdIndex : Int) : Option (LogEntry α) := do
  let (found, _) := Logs.searchCommand cmdIndex logs.entries 0 0
  let logIndex := (found.map (· + logs.offset)).getD 0
  guard (logIndex < logs.entries.length + logs.offset)
  let entry ← index? logs.entries (logIndex - logs.offset)
  guard (entry.commandIndex = cmdIndex)
  return entry

/-- `takeSnapshot`: the search and the assertions come before the lock. -/
def takeSnapshot (sv : Server α) (cmdIndex : Int) (snapshot : List UInt8) :
    Traced Mutex (Server α) := do
  let _ ← Traced.ofOption (searched sv.logs cmdIndex)
  Traced.locked .logs do
    let logs ← Traced.ofOption (sv.logs.takeSnapshot cmdIndex snapshot)
    persist { sv with logs }

/-! ## The handlers -/

/-- `Follower.appendEntries`. -/
def Follower.appendEntries (sv : Server α) (args : AppendEntriesArgs α) :
    Traced Mutex (Server α) :=
  if args.term < sv.term then
    return sv
  else do
    let sv ← adoptTerm sv args.term
    match args.snapshot with
    | some snapshot => followerInstallSnapshot sv snapshot
    | none =>
        let sendEntries ← Traced.ofOption args.sendEntries
        let (sv, status) ← followerAppendEntries sv sendEntries
        if status = .entryMatch ∧ args.entryType = .entryTLog then
          updateCommit sv args.leaderCommit
        else
          return sv

/-- The `requestVote` of the three roles.  They differ in their answers and in the place of
`transRole`, which takes neither lock. -/
def requestVote (sv : Server α) (args : RequestVoteArgs) : Traced Mutex (Server α) :=
  if args.term ≤ sv.term then
    return sv
  else do
    let sv ← setTerm sv args.term
    let upToDate ← atLeastUpToDate sv args.lastLogInfo
    if upToDate then
      return { sv with voteFor := some args.candidateID }
    else
      return sv

/-- `Follower.process`. -/
def Follower.process (sv : Server α) : Event α → Traced Mutex (Server α)
  | .appendEntries _ args => Follower.appendEntries sv args
  | .requestVote _ args => requestVote sv args
  | _ => return sv

/-- `Candidate.process`. -/
def Candidate.process (sv : Server α) : Event α → Traced Mutex (Server α)
  | .appendEntries _ args => if args.term ≥ sv.term then adoptTerm sv args.term else pure sv
  | .requestVote _ args => requestVote sv args
  | .staleCandidate _ newTerm => adoptTerm sv newTerm
  | _ => return sv

/-- `Leader.process`. -/
def Leader.process (cfg : Config) (sv : Server α) (rc : ReplCounter) :
    Event α → Traced Mutex (Server α)
  | .startCommand command =>
      leaderAppendEntry sv { commandIndex := 0, term := sv.term, content := command }
  | .appendEntries _ args => if args.term > sv.term then setTerm sv args.term else pure sv
  | .requestVote _ args => requestVote sv args
  | .replConfirm _ id startIndex endIndex => do
      let (_, commit) ← Traced.ofOption (rc.confirm cfg.majorN id startIndex endIndex)
      match commit with
      | some leaderCommit => updateCommit sv leaderCommit
      | none => return sv
  | .staleLeader _ newTerm => setTerm sv newTerm
  | _ => return sv

/-- `rf.role.activate()`. -/
def activate (sv : Server α) : Traced Mutex (Server α) :=
  match sv.role with
  | .follower => return sv
  | .candidate _ => do
      let _ ← lastLogInfo sv
      return { sv with term := sv.term + 1 }
  | .leader _ => leaderAppendEntry sv
      { commandIndex := noopIndex, term := sv.term, content := none }

/-- `rf.role.process(ev)`. -/
def processRole (cfg : Config) (sv : Server α) (ev : Event α) : Traced Mutex (Server α) :=
  match sv.role with
  | .follower => Follower.process sv ev
  | .candidate _ => Candidate.process sv ev
  | .leader rc => Leader.process cfg sv rc ev

/-- One round of `processor`. -/
def processEvent (cfg : Config) (sv : Server α) (ev : Event α) : Traced Mutex (Server α) :=
  match ev with
  | .trans none => activate sv
  | .trans (some transFunc) => do
      let role ← Traced.ofOption (transFunc.apply sv.role)
      activate { sv with role, roleId := sv.nextId, nextId := sv.nextId + 1 }
  | .snapshot index snapshot =>
      if sv.active then takeSnapshot sv index snapshot else pure sv
  | ev => if sv.active then processRole cfg sv ev else pure sv

/-! ## Without the locks

The functions compute what they compute in the model without locks. -/

section

variable {sv : Server α}

@[simp]
theorem value_setTerm (term : Int) : (setTerm sv term).value = sv.setTerm term := by
  unfold setTerm Server.setTerm
  cases sv.storeTerm term with
  | none => rfl
  | some raised => rfl

@[simp]
theorem value_adoptTerm (term : Int) : (adoptTerm sv term).value = some (sv.raiseTo term) := by
  unfold adoptTerm
  split
  case isTrue larger => rw [value_setTerm, Server.setTerm_eq_raiseTo larger]
  case isFalse notLarger =>
    rw [Server.raiseTo_of_le (Int.not_lt.mp notLarger)]
    rfl

@[simp]
theorem value_atLeastUpToDate (lg : LogInfo) :
    (atLeastUpToDate sv lg).value = sv.logs.atLeastUpToDate lg := by
  unfold atLeastUpToDate lastLogInfo Logs.atLeastUpToDate
  cases sv.logs.lastLogInfo with
  | none => rfl
  | some myLast =>
      simp only [Traced.value_bind, Traced.value_rLocked, Traced.value_ofOption, Option.bind_some,
        Option.bind_eq_bind]
      split <;> rfl

theorem value_replaceAfter (idx : Int) (ets : List (LogEntry α)) :
    (replaceAfter sv idx ets).value =
      (sv.logs.replaceAfter idx ets).map fun logs => { sv with logs } := by
  unfold replaceAfter Logs.replaceAfter
  split
  case isTrue =>
    unfold removeAfter
    cases sv.logs.removeAfter idx with
    | none => rfl
    | some kept => rfl
  case isFalse => rfl

@[simp]
theorem value_updateCommit (leaderCommit : Int) :
    (updateCommit sv leaderCommit).value =
      (sv.logs.updateCommit leaderCommit).map fun committed =>
        if committed.2.isSome then ({ sv with logs := committed.1 } : Server α).persistState
        else sv := by
  unfold updateCommit
  rcases sv.logs.updateCommit leaderCommit with _ | ⟨logs, _ | item⟩
  · rfl
  · rfl
  · rfl

theorem value_followerAppendEntries (args : SendEntries α) :
    (followerAppendEntries sv args).value =
      (sv.logs.followerAppendEntries args).map fun (logs, status, appended) =>
        (if appended then ({ sv with logs } : Server α).persistState else { sv with logs },
          status) := by
  unfold followerAppendEntries Logs.followerAppendEntries
  dsimp only
  split
  case isTrue => rfl
  split
  case isTrue => rfl
  split
  case isTrue => rfl
  cases sv.logs.matchesPrev args.prevLogInfo with
  | none => rfl
  | some matched =>
      cases matched with
      | false => rfl
      | true =>
          simp only [Traced.value_bind, Traced.value_ofOption, Option.bind_some, if_true,
            Option.bind_eq_bind]
          split
          case isFalse => rfl
          simp only [Traced.value_bind, value_replaceAfter]
          cases sv.logs.replaceAfter args.prevLogInfo.index args.entries with
          | none => rfl
          | some logs => rfl

/-- The assertions of a `takeSnapshot` that returns have held. -/
theorem searched_isSome {logs logs' : Logs α} {cmdIndex : Int} {bytes : List UInt8}
    (taken : logs.takeSnapshot cmdIndex bytes = some logs') :
    ∃ entry, searched logs cmdIndex = some entry := by
  simp only [Logs.takeSnapshot, Option.bind_eq_bind, Option.bind_eq_some_iff] at taken
  obtain ⟨_, inBounds, entry, found, _, isCommand, -⟩ := taken
  refine ⟨entry, ?_⟩
  simp only [searched, Option.bind_eq_bind, inBounds, Option.bind_some, found, isCommand]
  rfl

theorem value_takeSnapshot (cmdIndex : Int) (bytes : List UInt8) :
    (takeSnapshot sv cmdIndex bytes).value =
      (sv.logs.takeSnapshot cmdIndex bytes).map fun logs =>
        ({ sv with logs } : Server α).persist := by
  unfold takeSnapshot
  cases taken : sv.logs.takeSnapshot cmdIndex bytes with
  | none =>
      cases searched sv.logs cmdIndex with
      | none => rfl
      | some entry => rfl
  | some logs =>
      obtain ⟨entry, found⟩ := searched_isSome taken
      rw [found]
      rfl

end

end Locking

end GoLab.Raft
