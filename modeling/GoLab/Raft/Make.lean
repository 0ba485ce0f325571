import GoLab.Raft.Server

/-!
# Starting a server (`Make`, `newLogs`)

`Make` restores the term, the vote and the log from the `Persister`; `newLogs`
decides from the three cursors what the applier has to deliver again.  A failed
assertion or a slice out of bounds is `none`: the process does not come up.
-/

namespace GoLab.Raft

variable {α : Type}

/-- The log of a persisted state; the snapshot gets its bytes back. -/
def PersistentLogs.restore (state : PersistentLogs α) (snapshot : List UInt8) : Logs α where
  entries := state.entries
  lci := state.lci
  lli := state.lli
  lai := state.lai
  noopCount := state.noopCount
  offset := state.offset
  snapshot := state.snapshot.map ({ · with snapshot })

/-- The log `newLogs` restores. -/
def restoreLogs (persistLogs : Option (PersistentLogs α)) (snapshot : List UInt8) :
    Option (Logs α) :=
  match persistLogs with
  | none => do
      guard (snapshot.length = 0)
      return Logs.empty
  | some state => do
      guard (state.snapshot.isSome → snapshot.length > 0)
      return state.restore snapshot

/-- The committed entries past `LAI`, as `newLogs` queues them. -/
def unfinishedEntries (logs : Logs α) : Option (List (ApplyEntry α)) :=
  if logs.lai < logs.lci then do
    let batch ← slice? logs.entries (logs.lai - logs.offset + 1) (logs.lci - logs.offset + 1)
    return [.log batch logs.lci]
  else
    some []

/-- What `newLogs` queues for the applier: an unfinished snapshot, or else the
committed entries past `LAI`. -/
def unfinished (logs : Logs α) : Option (List (ApplyEntry α)) :=
  match logs.snapshot with
  | some snapshot =>
      if logs.lai < snapshot.lastIncludeIndex then
        some [.snapshot snapshot]
      else
        unfinishedEntries logs
  | none => unfinishedEntries logs

/-- The persisted term. -/
def Persister.term (persister : Persister α) : Int :=
  (persister.raftstate.map PersistentState.term).getD 0

/-- The persisted vote. -/
def Persister.voteFor (persister : Persister α) : Option Nat :=
  persister.raftstate.bind PersistentState.voteFor

/-- The persisted log. -/
def Persister.logs (persister : Persister α) : Logs α :=
  (persister.raftstate.map fun state => state.logs.restore persister.snapshot).getD .empty

/-- The last index a persisted snapshot stands for; `-1` without one. -/
def Persister.base (persister : Persister α) : Int :=
  (persister.logs.snapshot.map Snapshot.lastIncludeIndex).getD (-1)

/-- `Make`: the server starts as a stopped follower, with the first `TransEvent`
in its channel. -/
def make (persister : Persister α) (nextId : Nat) : Option (Server α) := do
  let logs ← restoreLogs (persister.raftstate.map PersistentState.logs) persister.snapshot
  let applier ← unfinished logs
  return {
    up := true
    term := persister.term
    voteFor := persister.voteFor
    role := .follower
    roleId := nextId
    active := false
    logs
    heap := [logs.entries]
    slice := ⟨0, 0, logs.entries.length, logs.entries.length⟩
    evCh := [.trans none]
    todo := []
    repls := []
    applier
    hand := .idle
    service := .ready
    received := []
    persister
    nextId := nextId + 1 }

/-- The two assertions of `newLogs` about the bytes of the snapshot. -/
def Persister.BytesOk (persister : Persister α) : Prop :=
  (persister.raftstate = none → persister.snapshot = []) ∧
    (persister.logs.snapshot.isSome → persister.snapshot ≠ [])

variable {persister : Persister α} {logs : Logs α}

theorem restoreLogs_eq_some :
    restoreLogs (persister.raftstate.map PersistentState.logs) persister.snapshot = some logs ↔
      persister.BytesOk ∧ persister.logs = logs := by
  obtain ⟨raftstate, bytes⟩ := persister
  cases raftstate with
  | none =>
      simp [restoreLogs, Option.bind_eq_some_iff, Persister.BytesOk, Persister.logs, Logs.empty]
  | some state =>
      simp [restoreLogs, Option.bind_eq_some_iff, Persister.BytesOk, Persister.logs,
        PersistentLogs.restore, List.length_pos_iff]

/-- What `make` returns when it returns. -/
theorem make_eq_some {nextId : Nat} {sv : Server α} (made : make persister nextId = some sv) :
    ∃ applier, persister.BytesOk ∧ unfinished persister.logs = some applier ∧
      sv = {
        up := true
        term := persister.term
        voteFor := persister.voteFor
        role := .follower
        roleId := nextId
        active := false
        logs := persister.logs
        heap := [persister.logs.entries]
        slice := ⟨0, 0, persister.logs.entries.length, persister.logs.entries.length⟩
        evCh := [.trans none]
        todo := []
        repls := []
        applier
        hand := .idle
        service := .ready
        received := []
        persister
        nextId := nextId + 1 } := by
  simp only [make, Option.bind_eq_bind, Option.bind_eq_some_iff, restoreLogs_eq_some] at made
  obtain ⟨_, ⟨bytesOk, rfl⟩, applier, queued, made⟩ := made
  cases made
  exact ⟨applier, bytesOk, queued, rfl⟩

variable {applier : List (ApplyEntry α)}

/-- `make` returns if the bytes are there and the unfinished part is in bounds. -/
theorem make_isSome (nextId : Nat) (bytesOk : persister.BytesOk)
    (queued : unfinished persister.logs = some applier) :
    ∃ sv, make persister nextId = some sv := by
  have restored := restoreLogs_eq_some.mpr ⟨bytesOk, rfl⟩
  simp [make, restored, queued]

theorem unfinishedEntries_eq_some (queued : unfinishedEntries logs = some applier) :
    (logs.lci ≤ logs.lai ∧ applier = []) ∨
      ∃ batch, logs.lai < logs.lci ∧ applier = [.log batch logs.lci] ∧
        slice? logs.entries (logs.lai - logs.offset + 1) (logs.lci - logs.offset + 1) =
          some batch := by
  unfold unfinishedEntries at queued
  split at queued
  case isTrue behind =>
    simp only [Option.bind_eq_bind, Option.bind_eq_some_iff] at queued
    obtain ⟨batch, window, queued⟩ := queued
    cases queued
    exact .inr ⟨batch, behind, rfl, window⟩
  case isFalse notBehind =>
    cases queued
    exact .inl ⟨Int.not_lt.mp notBehind, rfl⟩

section

variable (queued : unfinished logs = some applier)
include queued

/-- What `newLogs` can queue. -/
theorem unfinished_eq_some :
    (∃ snapshot, logs.snapshot = some snapshot ∧ logs.lai < snapshot.lastIncludeIndex ∧
        applier = [.snapshot snapshot]) ∨
      ((∀ snapshot ∈ logs.snapshot, snapshot.lastIncludeIndex ≤ logs.lai) ∧
        unfinishedEntries logs = some applier) := by
  unfold unfinished at queued
  split at queued
  case h_1 snapshot isSnapshot =>
    split at queued
    case isTrue older =>
      cases queued
      exact .inl ⟨snapshot, isSnapshot, older, rfl⟩
    case isFalse notOlder =>
      refine .inr ⟨?_, queued⟩
      simp only [isSnapshot, Option.mem_def, Option.some.injEq]
      rintro _ rfl
      exact Int.not_lt.mp notOlder
  case h_2 isNone => exact .inr ⟨by simp [isNone], queued⟩

/-- The snapshots `newLogs` queues are the one of the log. -/
theorem snapshot_of_mem_unfinished {snapshot : Snapshot α}
    (membership : .snapshot snapshot ∈ applier) : logs.snapshot = some snapshot := by
  obtain ⟨found, isSnapshot, -, rfl⟩ | ⟨-, entries⟩ := unfinished_eq_some queued
  · simp only [List.mem_singleton, ApplyEntry.snapshot.injEq] at membership
    rw [isSnapshot, membership]
  · obtain ⟨-, rfl⟩ | ⟨batch, -, rfl, -⟩ := unfinishedEntries_eq_some entries
    · cases membership
    · simp at membership

/-- The batch `newLogs` queues are the committed entries past `LAI`. -/
theorem batch_of_mem_unfinished {batch : List (LogEntry α)} {lai : Int}
    (membership : .log batch lai ∈ applier) :
    lai = logs.lci ∧
      slice? logs.entries (logs.lai - logs.offset + 1) (logs.lci - logs.offset + 1) =
        some batch := by
  obtain ⟨found, isSnapshot, -, rfl⟩ | ⟨-, entries⟩ := unfinished_eq_some queued
  · simp at membership
  · obtain ⟨-, rfl⟩ | ⟨queue, -, rfl, window⟩ := unfinishedEntries_eq_some entries
    · cases membership
    · simp only [List.mem_singleton, ApplyEntry.log.injEq] at membership
      obtain ⟨rfl, rfl⟩ := membership
      exact ⟨rfl, window⟩

theorem length_unfinished : applier.length ≤ 1 := by
  obtain ⟨_, -, -, rfl⟩ | ⟨-, entries⟩ := unfinished_eq_some queued
  · simp
  · obtain ⟨-, rfl⟩ | ⟨_, -, rfl, -⟩ := unfinishedEntries_eq_some entries <;> simp

end

/-- The `Persister` of a server that was never started. -/
def Persister.fresh : Persister α := ⟨none, []⟩

/-- A server that starts for the first time. -/
def Server.initial : Server α where
  up := true
  term := 0
  voteFor := none
  role := .follower
  roleId := 0
  active := false
  logs := .empty
  heap := [[]]
  slice := ⟨0, 0, 0, 0⟩
  evCh := [.trans none]
  todo := []
  repls := []
  applier := []
  hand := .idle
  service := .ready
  received := []
  persister := .fresh
  nextId := 1

/-- The initial state is what `Make` returns without a persisted state. -/
theorem make_fresh : make (.fresh : Persister α) 0 = some Server.initial := rfl

end GoLab.Raft
