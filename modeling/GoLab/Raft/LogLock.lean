import GoLab.Raft.Locking
import GoLab.Raft.Snapshots

/-!
# Which handlers wait for themselves

A handler that compacts the log asks for the read lock under its own write lock: `persist`
reads the state under the read lock, and both functions that install a snapshot call it with
the log locked.  Every other handler gets through and gives back what it took.
-/

namespace GoLab.Raft

variable {α : Type}

namespace Locking

/-! ## What restores the locks -/

section

variable {cfg : Config} {sv : Server α}

theorem encodeState_restores {held : Mutex → Holding} (free : (held .logs).write = false) :
    (encodeState sv).Restores held :=
  .rLocked free (Traced.restores_pure _)

theorem persistState_orderly : (persistState sv).Orderly :=
  .locked rfl ((encodeState_restores rfl).bind fun _ _ => Traced.restores_pure _)

theorem setTerm_orderly {term : Int} : (setTerm sv term).Orderly :=
  (Traced.restores_ofOption _).bind fun _ _ => persistState_orderly

theorem adoptTerm_orderly {term : Int} : (adoptTerm sv term).Orderly :=
  .ite (fun _ => setTerm_orderly) fun _ => Traced.restores_pure _

theorem lastLogInfo_orderly : (lastLogInfo sv).Orderly :=
  .rLocked rfl (Traced.restores_ofOption _)

theorem atLeastUpToDate_orderly {lg : LogInfo} : (atLeastUpToDate sv lg).Orderly :=
  lastLogInfo_orderly.bind fun _ _ =>
    .ite (fun _ => Traced.restores_pure _) fun _ => Traced.restores_pure _

theorem pushEntry_orderly {et : LogEntry α} : (pushEntry sv et).Orderly :=
  .locked rfl (Traced.restores_pure _)

theorem pushEntries_orderly {ets : List (LogEntry α)} : (pushEntries sv ets).Orderly :=
  .locked rfl (Traced.restores_pure _)

theorem leaderAppendEntry_orderly {et : LogEntry α} : (leaderAppendEntry sv et).Orderly :=
  pushEntry_orderly.bind fun _ _ => persistState_orderly

theorem updateCommit_orderly {leaderCommit : Int} : (updateCommit sv leaderCommit).Orderly := by
  refine (Traced.restores_ofOption _).bind fun committed _ => ?_
  split
  · exact Traced.restores_pure _
  · exact persistState_orderly

theorem removeAfter_orderly {idx : Int} : (removeAfter sv idx).Orderly :=
  .locked rfl ((Traced.restores_ofOption _).bind fun _ _ => Traced.restores_pure _)

theorem replaceAfter_orderly {idx : Int} {ets : List (LogEntry α)} :
    (replaceAfter sv idx ets).Orderly :=
  .ite (fun _ => removeAfter_orderly.bind fun _ _ => pushEntries_orderly)
    fun _ => pushEntries_orderly

theorem followerAppendEntries_orderly {args : SendEntries α} :
    (followerAppendEntries sv args).Orderly := by
  refine .ite (fun _ => Traced.restores_pure _) fun _ => ?_
  refine .ite (fun _ => Traced.restores_pure _) fun _ => ?_
  refine .ite (fun _ => Traced.restores_pure _) fun _ => ?_
  refine (Traced.restores_ofOption _).bind fun matched _ => ?_
  refine .ite (fun _ => ?_) fun _ => Traced.restores_pure _
  refine .ite (fun _ => ?_) fun _ => Traced.restores_pure _
  refine replaceAfter_orderly.bind fun extended _ => ?_
  exact persistState_orderly.bind fun _ _ => Traced.restores_pure _

theorem requestVote_orderly {args : RequestVoteArgs} : (requestVote sv args).Orderly := by
  refine .ite (fun _ => Traced.restores_pure _) fun _ => ?_
  refine setTerm_orderly.bind fun raised _ => ?_
  refine atLeastUpToDate_orderly.bind fun upToDate _ => ?_
  exact .ite (fun _ => Traced.restores_pure _) fun _ => Traced.restores_pure _

theorem activate_orderly : (activate sv).Orderly := by
  unfold activate
  split
  · exact Traced.restores_pure _
  · exact lastLogInfo_orderly.bind fun _ _ => Traced.restores_pure _
  · exact leaderAppendEntry_orderly

theorem Candidate.process_orderly (ev : Event α) : (Candidate.process sv ev).Orderly := by
  unfold Candidate.process
  split
  · exact .ite (fun _ => adoptTerm_orderly) fun _ => Traced.restores_pure _
  · exact requestVote_orderly
  · exact adoptTerm_orderly
  · exact Traced.restores_pure _

theorem Leader.process_orderly (rc : ReplCounter) (ev : Event α) :
    (Leader.process cfg sv rc ev).Orderly := by
  unfold Leader.process
  split
  · exact leaderAppendEntry_orderly
  · exact .ite (fun _ => setTerm_orderly) fun _ => Traced.restores_pure _
  · exact requestVote_orderly
  · refine (Traced.restores_ofOption _).bind fun counted _ => ?_
    obtain ⟨_, commit⟩ := counted
    cases commit with
    | none => exact Traced.restores_pure _
    | some leaderCommit => exact updateCommit_orderly
  · exact setTerm_orderly
  · exact Traced.restores_pure _

/-! ## What does not -/

/-- Under the write lock of the log `persist` waits for itself. -/
theorem persist_stuck {held : Mutex → Holding} (taken : (held .logs).write = true) :
    (persist sv).Stuck held :=
  .locked (Traced.Stuck.bind (Traced.stuck_rLocked taken))

theorem followerInstallSnapshot_stuck {snapshot : Snapshot α} :
    (followerInstallSnapshot sv snapshot).Stuck fun _ => {} :=
  .locked (persist_stuck rfl)

theorem takeSnapshot_stuck {logs : Logs α} {cmdIndex : Int} {bytes : List UInt8}
    (taken : sv.logs.takeSnapshot cmdIndex bytes = some logs) :
    (takeSnapshot sv cmdIndex bytes).Stuck fun _ => {} := by
  obtain ⟨entry, found⟩ := searched_isSome taken
  refine (Traced.restores_ofOption _).bind_stuck found ?_
  exact .locked ((Traced.restores_ofOption _).bind_stuck taken (persist_stuck rfl))

/-- A request without a snapshot, or one of an older term. -/
theorem Follower.appendEntries_orderly {args : AppendEntriesArgs α}
    (entries : sv.term ≤ args.term → args.snapshot = none) :
    (Follower.appendEntries sv args).Orderly := by
  refine .ite (fun _ => Traced.restores_pure _) fun current => ?_
  refine adoptTerm_orderly.bind fun raised _ => ?_
  rw [entries (Int.not_lt.mp current)]
  refine (Traced.restores_ofOption _).bind fun sendEntries _ => ?_
  refine followerAppendEntries_orderly.bind fun appended _ => ?_
  exact .ite (fun _ => updateCommit_orderly) fun _ => Traced.restores_pure _

theorem Follower.appendEntries_stuck {args : AppendEntriesArgs α} {snapshot : Snapshot α}
    (current : sv.term ≤ args.term) (isSnapshot : args.snapshot = some snapshot) :
    (Follower.appendEntries sv args).Stuck fun _ => {} := by
  unfold Follower.appendEntries
  rw [if_neg (Int.not_lt.mpr current)]
  refine adoptTerm_orderly.bind_stuck (value_adoptTerm args.term) ?_
  rw [isSnapshot]
  exact followerInstallSnapshot_stuck

theorem takeSnapshot_orderly {cmdIndex : Int} {bytes : List UInt8}
    (refused : sv.logs.takeSnapshot cmdIndex bytes = none) :
    (takeSnapshot sv cmdIndex bytes).Orderly := by
  refine (Traced.restores_ofOption _).bind fun entry _ => ?_
  refine .locked rfl ((Traced.restores_ofOption _).bind fun logs taken => ?_)
  exact nomatch refused.symm.trans taken

end

end Locking

/-! ## Which handlers compact the log -/

/-- What `takeSnapshot` asks for is in the log.  The search passes over the no-ops, and one
that finds nothing leaves `logIndex` at `0`. -/
def Logs.Locates (logs : Logs α) (cmdIndex : Int) : Prop :=
  if cmdIndex = noopIndex then ∃ entry ∈ logs.entryAt 0, entry.commandIndex = noopIndex
  else ∃ entry ∈ logs.entries, entry.commandIndex = cmdIndex

/-- The handler of the event takes a snapshot or installs one. -/
def Compacts (sv : Server α) : Event α → Prop
  | .snapshot index _ => sv.active = true ∧ sv.logs.Locates index
  | .appendEntries _ args =>
      sv.active = true ∧ sv.role = .follower ∧ sv.term ≤ args.term ∧ args.snapshot ≠ none
  | _ => False

theorem Logs.searchCommand_noop (entries : List (LogEntry α)) (i passed : Int) :
    (searchCommand noopIndex entries i passed).1 = none := by
  induction entries generalizing i passed with
  | nil => rfl
  | cons entry rest ih =>
      unfold searchCommand
      split
      case isTrue => exact ih _ _
      case isFalse => exact ih _ _

theorem Logs.Anchored.takeSnapshot_noop_iff {logs : Logs α} (anchored : logs.Anchored)
    (bytes : List UInt8) :
    (logs.takeSnapshot noopIndex bytes).isSome ↔
      ∃ entry ∈ logs.entryAt 0, entry.commandIndex = noopIndex := by
  have missing := searchCommand_noop logs.entries 0 0
  generalize searched : searchCommand noopIndex logs.entries 0 0 = search at missing
  obtain ⟨found, noopCount⟩ := search
  cases missing
  constructor
  · intro returned
    obtain ⟨logs', taken⟩ := Option.isSome_iff_exists.mp returned
    simp only [takeSnapshot, searched, Option.bind_eq_bind, Option.bind_eq_some_iff,
      Option.guard_eq_some'] at taken
    obtain ⟨-, -, entry, found, -, isNoop, -⟩ := taken
    exact ⟨entry, found, isNoop⟩
  · rintro ⟨entry, found, isNoop⟩
    obtain ⟨nonneg, found⟩ := index?_eq_some.mp found
    have logIndex : (0 : Int) = (0 - logs.offset).toNat + logs.offset := by omega
    obtain ⟨logs', taken, -⟩ := anchored.takeSnapshot_at searched logIndex found isNoop bytes
    exact Option.isSome_of_eq_some taken

theorem Logs.Anchored.takeSnapshot_locates {logs : Logs α} (anchored : logs.Anchored)
    (cmdIndex : Int) (bytes : List UInt8) :
    (logs.takeSnapshot cmdIndex bytes).isSome ↔ logs.Locates cmdIndex := by
  unfold Locates
  split
  case isTrue noop =>
    cases noop
    exact anchored.takeSnapshot_noop_iff bytes
  case isFalse command => exact anchored.takeSnapshot_iff command bytes

theorem Locking.processRole_orderly {cfg : Config} {sv : Server α} {ev : Event α}
    (isActive : sv.active = true) (untouched : ¬Compacts sv ev) :
    (processRole cfg sv ev).Orderly := by
  unfold processRole
  split
  case h_1 follower =>
    unfold Follower.process
    split
    · refine Follower.appendEntries_orderly fun current => ?_
      by_contra isSnapshot
      exact untouched ⟨isActive, follower, current, isSnapshot⟩
    · exact requestVote_orderly
    · exact Traced.restores_pure _
  case h_2 => exact Candidate.process_orderly ev
  case h_3 => exact Leader.process_orderly _ ev

theorem Locking.processEvent_orderly {cfg : Config} {sv : Server α} (anchored : sv.logs.Anchored)
    {ev : Event α} (untouched : ¬Compacts sv ev) : (processEvent cfg sv ev).Orderly := by
  unfold processEvent
  split
  · exact activate_orderly
  · exact (Traced.restores_ofOption _).bind fun _ _ => activate_orderly
  · refine .ite (fun isActive => takeSnapshot_orderly ?_) fun _ => Traced.restores_pure _
    by_contra taken
    have returned := Option.isSome_iff_ne_none.mpr taken
    exact untouched ⟨isActive, (anchored.takeSnapshot_locates _ _).mp returned⟩
  · exact .ite (fun isActive => processRole_orderly isActive untouched)
      fun _ => Traced.restores_pure _

theorem Locking.processEvent_stuck {cfg : Config} {sv : Server α} (anchored : sv.logs.Anchored)
    {ev : Event α} (compacts : Compacts sv ev) : (processEvent cfg sv ev).Stuck fun _ => {} := by
  cases ev with
  | snapshot index bytes =>
      obtain ⟨isActive, locates⟩ := compacts
      obtain ⟨logs, taken⟩ :=
        Option.isSome_iff_exists.mp ((anchored.takeSnapshot_locates index bytes).mpr locates)
      simp only [processEvent, if_pos isActive]
      exact takeSnapshot_stuck taken
  | appendEntries caller args =>
      obtain ⟨isActive, follower, current, isSnapshot⟩ := compacts
      obtain ⟨snapshot, isSnapshot⟩ := Option.ne_none_iff_exists'.mp isSnapshot
      simp only [processEvent, if_pos isActive, processRole, follower, Follower.process]
      exact Follower.appendEntries_stuck current isSnapshot
  | _ => exact compacts.elim

/-- In every state a run reaches, the handler of an event restores the locks exactly if it
does not compact the log. -/
theorem handler_locks_iff {cfg : Config} {labels : List (Label α)} {s : Cluster α}
    (run : Run (Cluster.step cfg) (fun _ _ => True) Cluster.init labels s) (i : Nat)
    (ev : Event α) :
    (Locking.processEvent cfg (s.servers i) ev).Orderly ↔ ¬Compacts (s.servers i) ev := by
  have anchored := (Cluster.sound run i).memory.cursors.anchored
  constructor
  · intro orderly compacts
    exact (Locking.processEvent_stuck anchored compacts).not_restores orderly
  · exact Locking.processEvent_orderly anchored

/-- The first entries of the first leader. -/
def entriesRequest : Event Nat :=
  .appendEntries ⟨0, 11⟩ {
    id := 0
    term := 1
    leaderCommit := -1
    entryType := .entryTLog
    snapshot := none
    sendEntries := some {
      entries := [⟨-1, 1, none⟩, ⟨1, 1, some 7⟩]
      prevLogInfo := ⟨-1, -1⟩ } }

/-- They reach server 1. -/
def entriesReceived : List (Label Nat) :=
  firstSent ++ Label.all 1 [.receive 5]

theorem handler_locks_iff_entriesReceived :
    ∃ s, Run (Cluster.step (.doubling 3)) (fun _ _ => True) Cluster.init entriesReceived s ∧
      (s.servers 1).evCh = [entriesRequest] ∧
      (Locking.processEvent (.doubling 3) (s.servers 1) entriesRequest).Orderly := by
  obtain ⟨s, run, isNext⟩ : ∃ s,
      Run (Cluster.step (.doubling 3)) (fun _ _ => True) Cluster.init entriesReceived s ∧
        (s.servers 1).evCh = [entriesRequest] := Run.exists_of_runSteps (by decide +kernel)
  refine ⟨s, run, isNext, (handler_locks_iff run 1 entriesRequest).mpr ?_⟩
  rintro ⟨-, -, -, isSnapshot⟩
  exact isSnapshot rfl

/-- The service of the first leader has asked for a snapshot of the first command.  The
processor locks the log, and waits for itself when it reads the log to save it. -/
theorem snapshot_handler_waits_for_itself :
    ∃ s, Run (Cluster.step (.doubling 3)) (fun _ _ => True) Cluster.init snapshotAsked s ∧
      (s.servers 0).up = true ∧ (s.servers 0).todo = [] ∧
      (s.servers 0).evCh = [.snapshot 1 [1]] ∧
      (Locking.processEvent (.doubling 3) (s.servers 0) (.snapshot 1 [1])).ops =
        [.lock .logs, .lock .saveLock, .rLock .logs, .rUnlock .logs, .unlock .saveLock,
          .unlock .logs] ∧
      ¬(Locking.processEvent (.doubling 3) (s.servers 0) (.snapshot 1 [1])).Orderly := by
  obtain ⟨s, run, up, idle, isNext, isOps⟩ : ∃ s,
      Run (Cluster.step (.doubling 3)) (fun _ _ => True) Cluster.init snapshotAsked s ∧
        (s.servers 0).up = true ∧ (s.servers 0).todo = [] ∧
        (s.servers 0).evCh = [.snapshot 1 [1]] ∧
        (Locking.processEvent (.doubling 3) (s.servers 0) (.snapshot 1 [1])).ops =
          [.lock .logs, .lock .saveLock, .rLock .logs, .rUnlock .logs, .unlock .saveLock,
            .unlock .logs] := Run.exists_of_runSteps (by decide +kernel)
  refine ⟨s, run, up, idle, isNext, isOps, fun orderly => ?_⟩
  unfold Traced.Orderly Traced.Restores at orderly
  rw [isOps] at orderly
  exact nomatch orderly

end GoLab.Raft
