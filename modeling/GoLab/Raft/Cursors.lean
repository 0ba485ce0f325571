import GoLab.Raft.History

/-!
# The cursors of the log

`Logs.Ok` relates the cursors of a log to its entries and its snapshot.  Every
operation keeps it, so it holds of the log in memory and of the persisted one
throughout every run.
-/

namespace GoLab.Raft

variable {α : Type}
variable {cfg : Config} {me : Nat} {sv : Server α} {out : Out α} {logs logs' : Logs α}
  {args : SendEntries α} {status : EntryStatus} {appended : Bool} {cmdIndex : Int}

namespace Logs

/-- The cursors fit the entries and the snapshot. -/
structure Ok (logs : Logs α) : Prop where
  last : logs.lli + 1 = logs.offset + logs.entries.length
  commit : logs.lci ≤ logs.lli
  base : ∀ snapshot ∈ logs.snapshot, logs.offset = snapshot.lastIncludeIndex + 1
  fresh : logs.snapshot = none → logs.offset = 0 ∧ logs.lai = -1

theorem empty_ok : (empty : Logs α).Ok where
  last := rfl
  commit := Int.le_refl _
  base := by simp [empty]
  fresh := fun _ => ⟨rfl, rfl⟩

/-! ## What the operations do -/

theorem updateCommit_spec {leaderCommit : Int} {item : ApplyEntry α}
    (result : logs.updateCommit leaderCommit = some (logs', some item)) :
    ∃ commit batch, logs.lci < commit ∧ commit = min leaderCommit logs.lli ∧
      slice? logs.entries (logs.lci - logs.offset + 1) (commit - logs.offset + 1) = some batch ∧
      logs' = { logs with lci := commit } ∧ item = .log batch commit := by
  unfold updateCommit at result
  split at result
  case isTrue => cases result
  case isFalse =>
    dsimp only at result
    split at result
    case isTrue larger =>
      simp only [Option.bind_eq_bind, Option.bind_eq_some_iff] at result
      obtain ⟨batch, window, result⟩ := result
      cases result
      exact ⟨_, batch, larger, rfl, window, rfl, rfl⟩
    case isFalse => cases result

theorem updateCommit_none {leaderCommit : Int}
    (result : logs.updateCommit leaderCommit = some (logs', none)) : logs' = logs := by
  unfold updateCommit at result
  split at result
  case isTrue => cases result; rfl
  case isFalse =>
    dsimp only at result
    split at result
    case isTrue =>
      simp only [Option.bind_eq_bind, Option.bind_eq_some_iff] at result
      obtain ⟨batch, -, result⟩ := result
      cases result
    case isFalse => cases result; rfl

theorem pushEntry_spec {et : LogEntry α} {commandIndex : Int}
    (pushed : logs.pushEntry et = (logs', commandIndex)) :
    logs' = { logs with
      entries := logs.entries ++ [{ et with commandIndex }]
      lli := logs.lli + 1
      noopCount := logs.noopCount + if et.commandIndex = noopIndex then 1 else 0 } := by
  unfold pushEntry at pushed
  dsimp only at pushed
  split at pushed
  case isTrue noop =>
    cases pushed
    simp only [if_pos noop]
  case isFalse command =>
    cases pushed
    simp [command]

/-- The four ways `followerAppendEntries` can end. -/
inductive Appends (logs : Logs α) (args : SendEntries α) :
    Logs α → EntryStatus → Bool → Prop where
  | below (below : args.prevLogInfo.index < logs.lci) :
      Appends logs args logs .entryMatch false
  | unmatched (notBelow : logs.lci ≤ args.prevLogInfo.index)
      (reason : args.prevLogInfo.index < -1 ∨ logs.lli < args.prevLogInfo.index ∨
        ∃ term, 0 ≤ args.prevLogInfo.index ∧
          logs.indexLogTermNoLock args.prevLogInfo.index = some term ∧
          term ≠ args.prevLogInfo.term) :
      Appends logs args logs .entryUnmatch false
  | held (notBelow : logs.lci ≤ args.prevLogInfo.index)
      (inside : -1 ≤ args.prevLogInfo.index ∧ args.prevLogInfo.index ≤ logs.lli)
      (matched : args.prevLogInfo.index < 0 ∨
        logs.indexLogTermNoLock args.prevLogInfo.index = some args.prevLogInfo.term)
      (nothing : args.entries = []) :
      Appends logs args logs .entryMatch false
  | appended (kept : Nat) (notBelow : logs.lci ≤ args.prevLogInfo.index)
      (inside : -1 ≤ args.prevLogInfo.index ∧ args.prevLogInfo.index ≤ logs.lli)
      (matched : args.prevLogInfo.index < 0 ∨
        logs.indexLogTermNoLock args.prevLogInfo.index = some args.prevLogInfo.term)
      (something : args.entries ≠ [])
      (keptEq : args.prevLogInfo.index + 1 = logs.offset + kept)
      (inBounds : kept ≤ logs.entries.length) :
      Appends logs args { logs with
        entries := logs.entries.take kept ++ args.entries
        lli := args.prevLogInfo.index + args.entries.length
        noopCount := logs.noopCount - noops (logs.entries.drop kept) + noops args.entries }
        .entryMatch true

theorem Appends.snapshot_eq (appends : logs.Appends args logs' status appended) :
    logs'.snapshot = logs.snapshot := by
  cases appends <;> rfl

theorem Appends.logs_eq (appends : logs.Appends args logs' status false) : logs' = logs := by
  cases appends <;> rfl

theorem removeAfter_spec {logs kept : Logs α} {idx : Int}
    (result : logs.removeAfter idx = some kept) :
    ∃ count : Nat, idx + 1 = logs.offset + count ∧ count ≤ logs.entries.length ∧
      kept = { logs with
        noopCount := logs.noopCount - noops (logs.entries.drop count)
        entries := logs.entries.take count
        lli := idx } := by
  simp only [removeAfter, Option.bind_eq_bind, Option.bind_eq_some_iff, slice?_eq_some] at result
  obtain ⟨removed, ⟨bounds, rfl⟩, entries, ⟨-, rfl⟩, result⟩ := result
  cases result
  refine ⟨(idx + 1 - logs.offset).toNat, by omega, by omega, ?_⟩
  have dropAll : ((logs.entries.length : Int) - (idx + 1 - logs.offset)).toNat =
      logs.entries.length - (idx + 1 - logs.offset).toNat := by omega
  have takeAll : (logs.entries.drop (idx + 1 - logs.offset).toNat).take
      (logs.entries.length - (idx + 1 - logs.offset).toNat) =
        logs.entries.drop (idx + 1 - logs.offset).toNat :=
    List.take_of_length_le (by simp)
  simp only [dropAll, takeAll, Int.sub_zero, Int.toNat_zero, List.drop_zero, List.length_take]
  congr 1
  omega

theorem replaceAfter_spec {idx : Int} {ets : List (LogEntry α)}
    (last : logs.lli + 1 = logs.offset + logs.entries.length) (inside : idx ≤ logs.lli)
    (result : logs.replaceAfter idx ets = some logs') :
    ∃ count : Nat, idx + 1 = logs.offset + count ∧ count ≤ logs.entries.length ∧
      logs' = { logs with
        noopCount := logs.noopCount - noops (logs.entries.drop count) + noops ets
        entries := logs.entries.take count ++ ets
        lli := idx + ets.length } := by
  unfold replaceAfter at result
  split at result
  case isTrue =>
    rw [Option.map_eq_some_iff] at result
    obtain ⟨kept, removed, rfl⟩ := result
    obtain ⟨count, countEq, inBounds, rfl⟩ := removeAfter_spec removed
    refine ⟨count, countEq, inBounds, ?_⟩
    simp only [pushEntries, List.length_append, List.length_take]
    congr 1
    omega
  case isFalse =>
    cases result
    refine ⟨logs.entries.length, by omega, Nat.le_refl _, ?_⟩
    simp only [pushEntries, List.length_append, List.drop_length, List.take_length]
    congr 1
    · omega
    · simp [noops]

theorem matchesPrev_true {prev : LogInfo} (matched : logs.matchesPrev prev = some true) :
    prev.index < 0 ∨ logs.indexLogTermNoLock prev.index = some prev.term := by
  unfold matchesPrev at matched
  split at matched
  case isTrue negative => exact .inl negative
  case isFalse =>
    simp only [Option.map_eq_some_iff, beq_iff_eq] at matched
    obtain ⟨term, found, rfl⟩ := matched
    exact .inr found

theorem matchesPrev_false {prev : LogInfo} (unmatched : logs.matchesPrev prev = some false) :
    ∃ term, 0 ≤ prev.index ∧ logs.indexLogTermNoLock prev.index = some term ∧
      term ≠ prev.term := by
  unfold matchesPrev at unmatched
  split at unmatched
  case isTrue => cases unmatched
  case isFalse notNegative =>
    simp only [Option.map_eq_some_iff, beq_eq_false_iff_ne] at unmatched
    obtain ⟨term, found, different⟩ := unmatched
    exact ⟨term, by omega, found, different⟩

theorem followerAppendEntries_of_last (last : logs.lli + 1 = logs.offset + logs.entries.length)
    (result : logs.followerAppendEntries args = some (logs', status, appended)) :
    logs.Appends args logs' status appended := by
  unfold followerAppendEntries at result
  dsimp only at result
  split at result
  case isTrue below =>
    cases result
    exact .below below
  split at result
  case isTrue tooSmall =>
    cases result
    exact .unmatched (by omega) (.inl tooSmall)
  split at result
  case isTrue tooLarge =>
    cases result
    exact .unmatched (by omega) (.inr (.inl tooLarge))
  case isFalse notBelow notSmall notLarge =>
    have inside : -1 ≤ args.prevLogInfo.index ∧ args.prevLogInfo.index ≤ logs.lli := by omega
    simp only [Option.bind_eq_bind, Option.bind_eq_some_iff] at result
    obtain ⟨matched, matchedEq, result⟩ := result
    cases matched with
    | false =>
        cases result
        exact .unmatched (by omega) (.inr (.inr (matchesPrev_false matchedEq)))
    | true =>
        rw [if_pos rfl] at result
        split at result
        case isTrue something =>
          rw [Option.bind_eq_some_iff] at result
          obtain ⟨replaced, replacedEq, result⟩ := result
          cases result
          obtain ⟨kept, keptEq, inBounds, rfl⟩ := replaceAfter_spec last inside.2 replacedEq
          exact .appended kept (by omega) inside (matchesPrev_true matchedEq)
            (List.ne_nil_of_length_pos something) keptEq inBounds
        case isFalse nothing =>
          cases result
          exact .held (by omega) inside (matchesPrev_true matchedEq)
            (List.eq_nil_of_length_eq_zero (by omega))

theorem followerAppendEntries_appends (ok : logs.Ok)
    (result : logs.followerAppendEntries args = some (logs', status, appended)) :
    logs.Appends args logs' status appended :=
  followerAppendEntries_of_last ok.last result

@[simp] theorem noops_nil : noops ([] : List (LogEntry α)) = 0 := rfl

theorem noops_append (front back : List (LogEntry α)) :
    noops (front ++ back) = noops front + noops back := by
  simp [noops]

theorem noops_cons (entry : LogEntry α) (rest : List (LogEntry α)) :
    noops (entry :: rest) = noops rest + if entry.commandIndex = noopIndex then 1 else 0 := by
  unfold noops LogEntry.isNoop
  rw [List.countP_cons]
  split <;> simp_all

/-- The search stops at the first command with the index, having passed the
no-ops in front of it. -/
theorem searchCommand_found {entries : List (LogEntry α)} {i passed : Int} {position : Int}
    {noopCount : Int}
    (result : searchCommand cmdIndex entries i passed = (some position, noopCount)) :
    ∃ kept : Nat, position = i + kept ∧ kept < entries.length ∧
      noopCount = passed + noops (entries.take (kept + 1)) := by
  induction entries generalizing i passed with
  | nil => cases result
  | cons entry rest ih =>
      unfold searchCommand at result
      split at result
      case isTrue noop =>
        obtain ⟨kept, rfl, inBounds, rfl⟩ := ih result
        refine ⟨kept + 1, by omega, by simpa using inBounds, ?_⟩
        rw [List.take_succ_cons, noops_cons, if_pos noop]
        omega
      split at result
      case isTrue command _ =>
        cases result
        refine ⟨0, by omega, by simp, ?_⟩
        simp [noops_cons, command]
      case isFalse command _ =>
        obtain ⟨kept, rfl, inBounds, rfl⟩ := ih result
        refine ⟨kept + 1, by omega, by simpa using inBounds, ?_⟩
        rw [List.take_succ_cons, noops_cons, if_neg command]
        omega

/-- A search that finds nothing has looked at every command. -/
theorem searchCommand_missing {entries : List (LogEntry α)} {i passed : Int} {noopCount : Int}
    (result : searchCommand cmdIndex entries i passed = (none, noopCount)) :
    ∀ entry ∈ entries, entry.commandIndex = cmdIndex → entry.commandIndex = noopIndex := by
  induction entries generalizing i passed with
  | nil => simp
  | cons first rest ih =>
      intro entry membership indexEq
      unfold searchCommand at result
      split at result
      case isTrue noop =>
        cases membership with
        | head => exact noop
        | tail _ membership => exact ih result entry membership indexEq
      split at result
      case isTrue => cases result
      case isFalse different =>
        cases membership with
        | head => exact (different indexEq).elim
        | tail _ membership => exact ih result entry membership indexEq

/-- What a successful `takeSnapshot` does.  The no-ops are counted right unless
the service asks for the index of a no-op. -/
theorem takeSnapshot_spec {bytes : List UInt8}
    (result : logs.takeSnapshot cmdIndex bytes = some logs') :
    ∃ (kept : Nat) (entry : LogEntry α) (term passed : Int),
      logs.entries[kept]? = some entry ∧ entry.commandIndex = cmdIndex ∧
      logs.indexLogTermNoLock (logs.offset + kept) = some term ∧
      (cmdIndex ≠ noopIndex → passed = noops (logs.entries.take (kept + 1))) ∧
      logs' = { logs with
        snapshot := some {
          snapshot := bytes
          lastIncludeIndex := logs.offset + kept
          lastIncludeTerm := term
          lastIncludeCmdIndex := cmdIndex
          noopCount := passed + (logs.snapshot.map Snapshot.noopCount).getD 0
          compacted := logs.compacted ++ logs.entries.take (kept + 1) }
        entries := logs.entries.drop (kept + 1)
        offset := logs.offset + kept + 1
        lai := logs.offset + kept } := by
  simp only [takeSnapshot, Option.bind_eq_bind, Option.bind_eq_some_iff, index?_eq_some,
    slice?_eq_some, Option.guard_eq_some'] at result
  obtain ⟨_, inBounds, entry, ⟨nonneg, found⟩, _, indexEq, term, termEq, _, ⟨bounds, rfl⟩,
    _, ⟨-, rfl⟩, result⟩ := result
  generalize searched : searchCommand cmdIndex logs.entries 0 0 = search at *
  obtain ⟨position, passed⟩ := search
  dsimp only at *
  generalize logIndexEq : (Option.map (fun x => x + logs.offset) position).getD 0 = logIndex at *
  obtain ⟨kept, rfl⟩ : ∃ kept : Nat, logIndex = logs.offset + kept :=
    ⟨(logIndex - logs.offset).toNat, by omega⟩
  have keptEq : (logs.offset + kept - logs.offset).toNat = kept := by omega
  have cutEq : (logs.offset + kept - logs.offset + 1).toNat = kept + 1 := by omega
  have restEq : ((logs.entries.length : Int) - (logs.offset + kept - logs.offset + 1)).toNat =
      logs.entries.length - (kept + 1) := by omega
  rw [keptEq] at found
  refine ⟨kept, entry, term, passed, found, indexEq, termEq, ?_, ?_⟩
  · intro command
    cases position with
    | none =>
        have missing := searchCommand_missing searched entry (List.mem_of_getElem? found) indexEq
        exact (command (indexEq ▸ missing)).elim
    | some position =>
        obtain ⟨place, rfl, -, rfl⟩ := searchCommand_found searched
        have placeEq : place = kept := by
          simp only [Option.map_some, Option.getD_some] at logIndexEq
          omega
        simp [placeEq]
  · have whole : (logs.entries.drop (kept + 1)).take (logs.entries.length - (kept + 1)) =
        logs.entries.drop (kept + 1) := List.take_of_length_le (by simp)
    simpa only [cutEq, restEq, whole, Int.sub_zero, Int.toNat_zero, List.drop_zero,
      Option.pure_def, Option.some.injEq, eq_comm] using result

/-! ## Every operation keeps the cursors right -/

theorem Ok.updateCommit (ok : logs.Ok) {leaderCommit : Int} {item : ApplyEntry α}
    (result : logs.updateCommit leaderCommit = some (logs', some item)) :
    logs'.Ok := by
  obtain ⟨commit, batch, -, atMost, -, rfl, -⟩ := updateCommit_spec result
  exact { ok with commit := atMost ▸ Int.min_le_right .. }

theorem Ok.pushEntry (ok : logs.Ok) {et : LogEntry α} {commandIndex : Int}
    (pushed : logs.pushEntry et = (logs', commandIndex)) : logs'.Ok := by
  have last := ok.last
  have commit := ok.commit
  rw [pushEntry_spec pushed]
  exact { ok with
    last := by simp only [List.length_append, List.length_singleton]; omega
    commit := by simp only; omega }

theorem Ok.appends (ok : logs.Ok) (appends : logs.Appends args logs' status appended) :
    logs'.Ok := by
  cases appends with
  | below | unmatched | held => exact ok
  | appended kept notBelow _ _ _ keptEq inBounds =>
      exact { ok with
        last := by simp only [List.length_append, List.length_take]; omega
        commit := by simp only; omega }

theorem Ok.followerInstallSnapshot (logs : Logs α) (snapshot : Snapshot α) :
    (logs.followerInstallSnapshot snapshot).Ok where
  last := by simp [Logs.followerInstallSnapshot]
  commit := Int.le_refl _
  base := by simp [Logs.followerInstallSnapshot]
  fresh := by simp [Logs.followerInstallSnapshot]

theorem Ok.takeSnapshot (ok : logs.Ok) {bytes : List UInt8}
    (result : logs.takeSnapshot cmdIndex bytes = some logs') : logs'.Ok := by
  obtain ⟨kept, entry, term, passed, found, -, -, -, rfl⟩ := takeSnapshot_spec result
  have inBounds : kept < logs.entries.length := (List.getElem?_eq_some_iff.mp found).1
  have last := ok.last
  exact {
    last := by simp only [List.length_drop]; omega
    commit := ok.commit
    base := by simp
    fresh := by simp }

theorem Ok.applied (ok : logs.Ok) (compacted : logs.snapshot.isSome) (lai : Int) :
    ({ logs with lai } : Logs α).Ok :=
  { ok with fresh := fun fresh => by simp_all }

end Logs

/-- What `newLogs` queues is within bounds. -/
theorem Logs.Ok.unfinished (ok : logs.Ok) :
    ∃ applier, unfinished logs = some applier := by
  have last := ok.last
  have commit := ok.commit
  have entries (applied : logs.offset ≤ logs.lai + 1) :
      ∃ applier, unfinishedEntries logs = some applier := by
    unfold unfinishedEntries
    split
    case isTrue =>
      rw [slice?, if_pos (by omega)]
      exact ⟨_, rfl⟩
    case isFalse => exact ⟨_, rfl⟩
  unfold Raft.unfinished
  cases isSnapshot : logs.snapshot with
  | none =>
      have fresh := ok.fresh isSnapshot
      exact entries (by omega)
  | some snapshot =>
      have base := ok.base snapshot isSnapshot
      dsimp only
      split
      case isTrue => exact ⟨_, rfl⟩
      case isFalse => exact entries (by omega)

/-! ## Runs -/

/-- A persisted state has a log with cursors that fit. -/
def Persister.CursorsOk (persister : Persister α) : Prop :=
  ∀ state ∈ persister.raftstate, ∀ bytes, (state.logs.restore bytes).Ok

theorem Persister.CursorsOk.logs_ok {persister : Persister α} (ok : persister.CursorsOk) :
    persister.logs.Ok := by
  unfold Persister.logs
  cases isState : persister.raftstate with
  | none => exact Logs.empty_ok
  | some state => exact ok state isState _

/-- A snapshot is on its way to the service. -/
def Server.snapshotPending (sv : Server α) : Prop :=
  (∃ snapshot, .snapshot snapshot ∈ sv.applier) ∨
  (∃ snapshot, sv.hand = .snapshot snapshot ∨ sv.hand = .applied snapshot) ∨
  ∃ snapshot, .apply (.snapshot snapshot) ∈ sv.todo

/-- The cursors of a server fit, in memory and on disk. -/
structure Server.CursorsOk (sv : Server α) : Prop where
  memory : sv.logs.Ok
  disk : sv.persister.CursorsOk
  pending : sv.up = true → sv.snapshotPending → sv.logs.snapshot.isSome

/-- The snapshot of a restored log is the one that was saved, with the bytes of the persister. -/
theorem Server.mem_restore {bytes : List UInt8} {snapshot : Snapshot α}
    (restored : snapshot ∈ (sv.encodeState.logs.restore bytes).snapshot) :
    ∃ original ∈ sv.logs.snapshot, { original with snapshot := bytes } = snapshot := by
  simpa [PersistentLogs.restore, encodeState] using restored

theorem Logs.Ok.restore (ok : sv.logs.Ok) (bytes : List UInt8) :
    (sv.encodeState.logs.restore bytes).Ok where
  last := ok.last
  commit := ok.commit
  base := by
    intro snapshot membership
    obtain ⟨original, isSnapshot, rfl⟩ := Server.mem_restore membership
    exact ok.base original isSnapshot
  fresh := by
    intro fresh
    simp only [PersistentLogs.restore, Server.encodeState, Option.map_eq_none_iff] at fresh
    exact ok.fresh fresh

theorem Server.cursorsOk_saved (sv : Server α) (ok : sv.logs.Ok) (bytes : List UInt8) :
    Persister.CursorsOk ⟨some sv.encodeState, bytes⟩ := by
  rintro _ ⟨⟩ restored
  exact ok.restore restored

theorem Server.CursorsOk.raiseTo (ok : sv.CursorsOk) (term : Int) :
    (sv.raiseTo term).persister.CursorsOk := by
  unfold Server.raiseTo
  dsimp only
  split
  case isTrue => exact cursorsOk_saved { sv with term, voteFor := none } ok.memory _
  case isFalse => exact ok.disk

/-- A step that leaves the log and what is on its way to the service alone. -/
theorem Server.CursorsOk.frame {sv sv' : Server α} (ok : sv.CursorsOk) (logs : sv'.logs = sv.logs)
    (disk : sv'.persister.CursorsOk) (up : sv'.up = true → sv.up = true)
    (pending : sv'.up = true → sv'.snapshotPending → sv.snapshotPending) :
    sv'.CursorsOk where
  memory := logs ▸ ok.memory
  disk := disk
  pending isUp isPending := logs ▸ ok.pending (up isUp) (pending isUp isPending)

theorem Server.CursorsOk.handles {ev : Event α} (ok : sv.CursorsOk)
    (handles : Handles cfg me sv ev out) (up : sv.up = true) (idle : sv.todo = []) :
    out.server.CursorsOk := by
  cases handles with
  | ignored => exact ok
  | installed => exact ⟨.followerInstallSnapshot .., ok.raiseTo _, fun _ _ => rfl⟩
  | appended _ _ _ _ _ result =>
      have appends := Logs.followerAppendEntries_appends ok.memory result
      refine ⟨ok.memory.appends appends, ok.raiseTo _, fun _ isPending => ?_⟩
      rw [appends.snapshot_eq]
      exact ok.pending up (by simpa [snapshotPending, idle] using isPending)
  | started _ _ pushed =>
      refine ⟨ok.memory.pushEntry pushed, ok.disk, fun _ isPending => ?_⟩
      rw [Logs.pushEntry_spec pushed]
      exact ok.pending up (by simpa [snapshotPending, idle] using isPending)
  | becameLeader _ pushed =>
      have ok' := ok.memory.pushEntry pushed
      refine ⟨ok', cursorsOk_saved _ ok' _, fun _ isPending => ?_⟩
      simp only [Logs.pushEntry_spec pushed, persistState_logs]
      exact ok.pending up (by simpa [snapshotPending, idle] using isPending)
  | snapshotTaken _ taken =>
      have ok' := ok.memory.takeSnapshot taken
      refine ⟨ok', cursorsOk_saved _ ok' _, fun _ _ => ?_⟩
      obtain ⟨_, _, _, _, -, -, -, -, rfl⟩ := Logs.takeSnapshot_spec taken
      rfl
  | becameFollower trans => exact ok.frame rfl ok.disk id (by simp [snapshotPending])
  | becameCandidate trans => exact ok.frame rfl ok.disk id (by simp [snapshotPending])
  | voteGiven | voteDenied | candidateVote | candidateHold | staleCandidate =>
      exact ok.frame rfl (ok.raiseTo _) id (by simp [snapshotPending, idle])
  | _ => exact ok.frame rfl ok.disk id (by simp [snapshotPending, idle])

theorem Server.CursorsOk.executes {op : Op α} {rest : List (Op α)} (ok : sv.CursorsOk)
    (up : sv.up = true) (next : sv.todo = op :: rest)
    (executes : Executes cfg me { sv with todo := rest } op out) : out.server.CursorsOk := by
  cases executes with
  | persistState | persist =>
      exact ok.frame rfl (cursorsOk_saved _ ok.memory _) id
        (by simp +contextual [snapshotPending, next])
  | queued =>
      refine ok.frame rfl ok.disk id (fun _ isPending => ?_)
      simp only [snapshotPending, List.mem_append, List.mem_singleton, next] at isPending ⊢
      grind
  | committed result =>
      have snapshotEq : _ := (Logs.updateCommit_spec result)
      obtain ⟨commit, batch, -, -, -, rfl, rfl⟩ := snapshotEq
      refine ⟨ok.memory.updateCommit result, ok.disk, fun _ isPending => ?_⟩
      apply ok.pending up
      simpa [snapshotPending, next] using isPending
  | _ => exact ok.frame rfl ok.disk id (by simp [snapshotPending, next])

theorem Server.CursorsOk.applies (ok : sv.CursorsOk) (up : sv.up = true)
    (applies : Applies me sv out) : out.server.CursorsOk := by
  cases applies with
  | takenLog idle next | takenSnapshot idle next =>
      exact ok.frame rfl ok.disk id (by simp +contextual [snapshotPending, next, idle])
  | finished next | skipped next | delivered next | snapshotDelivered next =>
      exact ok.frame rfl ok.disk id (by simp +contextual [snapshotPending, next])
  | snapshotApplied next =>
      have compacted := ok.pending up (.inr (.inl ⟨_, .inr next⟩))
      refine ⟨ok.memory.applied compacted _, ?_, fun _ _ => compacted⟩
      exact cursorsOk_saved { sv with logs := { sv.logs with lai := _ } }
        (ok.memory.applied compacted _) _

theorem Server.CursorsOk.make {persister : Persister α} {nextId : Nat} (disk : persister.CursorsOk)
    (made : make persister nextId = some sv) : sv.CursorsOk := by
  obtain ⟨applier, -, queued, rfl⟩ := make_eq_some made
  refine ⟨?_, disk, fun _ isPending => ?_⟩
  · exact disk.logs_ok
  · simp only [snapshotPending, List.not_mem_nil, exists_false, or_false, reduceCtorEq] at isPending
    obtain ⟨snapshot, membership⟩ := isPending
    exact Option.isSome_of_eq_some (snapshot_of_mem_unfinished queued membership)

/-- The cursors of every server fit in every run. -/
theorem Cluster.cursorsOk {allowed : Cluster α → Label α → Prop} {labels : List (Label α)}
    {s : Cluster α} (run : Run (step cfg) allowed init labels s) (i : Nat) :
    (s.servers i).CursorsOk := by
  refine local_invariant (fun _ sv _ => sv.CursorsOk) ?_ ?_ run i
  · exact fun _ => ⟨Logs.empty_ok, by simp [Persister.CursorsOk, Server.initial, Persister.fresh],
      by simp [Server.snapshotPending, Server.initial]⟩
  · intro _ s i act out _ ok _ steps
    cases steps with
    | popped up idle _ handles =>
        refine Server.CursorsOk.handles ?_ handles up idle
        exact ok.frame rfl ok.disk id fun _ => id
    | executed up next executes => exact ok.executes up next executes
    | applied up applies => exact ok.applies up applies
    | crashed => exact ok.frame rfl ok.disk (by simp) (by simp)
    | restarted _ made => exact .make ok.disk made
    | _ => exact ok.frame rfl ok.disk id fun _ => id

end GoLab.Raft
