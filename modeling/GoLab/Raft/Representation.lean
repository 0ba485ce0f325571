import GoLab.Raft.FullLog
import GoLab.Raft.LogOps

/-!
# The representation invariant of the log

`Logs` keeps five numbers beside its entries: `lli`, `lci`, `offset`, `noopCount` and the
index of the snapshot.  Each is updated on its own, and every access subtracts the
`offset` from an index.  `Logs.Represented` says how the numbers belong together, and
`Logs.Representation` adds what keeps them so: a snapshot counts no more no-ops than it
stands for entries, and the length of the log fits 32 bits.
-/

namespace GoLab.Raft

variable {α : Type}

/-- The number of no-ops of a snapshot is possible for the entries it stands for. -/
def Snapshot.NoopsFit (snapshot : Snapshot α) : Prop :=
  0 ≤ snapshot.noopCount ∧ snapshot.noopCount ≤ snapshot.lastIncludeIndex + 1

namespace Logs

/-- The no-ops the current snapshot stands for. -/
def snapshotNoops (logs : Logs α) : Int :=
  (logs.snapshot.map Snapshot.noopCount).getD 0

/-- How the cursors of a log belong to its entries and its snapshot. -/
structure Positioned (logs : Logs α) : Prop where
  last : logs.lli = logs.offset + logs.entries.length - 1
  base : ∀ snapshot ∈ logs.snapshot,
    0 ≤ snapshot.lastIncludeIndex ∧ logs.offset = snapshot.lastIncludeIndex + 1
  fresh : logs.snapshot = none → logs.offset = 0
  commit : logs.offset - 1 ≤ logs.lci ∧ logs.lci ≤ logs.lli

/-- How the numbers of a log belong to its entries and its snapshot. -/
structure Represented (logs : Logs α) : Prop extends logs.Positioned where
  noopCount : logs.noopCount = logs.snapshotNoops + noops logs.entries

/-- The representation invariant. -/
structure Representation (logs : Logs α) : Prop extends logs.Represented where
  counts : ∀ snapshot ∈ logs.snapshot, snapshot.NoopsFit
  width : logs.lli + 1 < 2 ^ 31

variable {logs logs' : Logs α}

theorem Positioned.offset_nonneg (positioned : logs.Positioned) : 0 ≤ logs.offset := by
  cases isSnapshot : logs.snapshot with
  | none => exact Int.le_of_eq (positioned.fresh isSnapshot).symm
  | some snapshot =>
      have base := positioned.base snapshot isSnapshot
      omega

theorem Positioned.spans (positioned : logs.Positioned) : logs.Spans where
  last := by
    have last := positioned.last
    omega
  commit := by
    have last := positioned.last
    have commit := positioned.commit
    omega
  base snapshot isSnapshot := (positioned.base snapshot isSnapshot).2
  fresh := positioned.fresh

/-- The no-ops of a snapshot are at most the entries below `offset`. -/
theorem Representation.snapshotNoops_le (ok : logs.Representation) :
    0 ≤ logs.snapshotNoops ∧ logs.snapshotNoops ≤ logs.offset := by
  unfold snapshotNoops
  cases isSnapshot : logs.snapshot with
  | none => simp [ok.fresh isSnapshot]
  | some snapshot =>
      have counts := ok.counts snapshot isSnapshot
      have base := ok.base snapshot isSnapshot
      unfold Snapshot.NoopsFit at counts
      simp only [Option.map_some, Option.getD_some]
      omega

theorem Representation.noopCount_le (ok : logs.Representation) :
    0 ≤ logs.noopCount ∧ logs.noopCount ≤ logs.lli + 1 := by
  have last := ok.last
  have below := ok.snapshotNoops_le
  have inside := noops_le_length logs.entries
  have nonneg : 0 ≤ noops logs.entries := by simp [noops]
  rw [ok.noopCount]
  omega

/-- Nothing is lost in the 32 bits of an atomic. -/
theorem Representation.stored (ok : logs.Representation) : logs.stored.Representation := by
  have nonneg := ok.offset_nonneg
  have last := ok.last
  have commit := ok.commit
  have width := ok.width
  have noopCount := ok.noopCount_le
  have lliEq : int32 logs.lli = logs.lli := int32_eq (by omega)
  have lciEq : int32 logs.lci = logs.lci := int32_eq (by omega)
  have noopEq : int32 logs.noopCount = logs.noopCount := int32_eq (by omega)
  unfold Logs.stored
  rw [lliEq, lciEq, noopEq]
  exact { ok with }

/-! ## Every operation keeps the cursors in place -/

theorem empty_positioned : (empty : Logs α).Positioned where
  last := rfl
  base := by simp [empty]
  fresh := fun _ => rfl
  commit := by simp [empty]

section

variable (positioned : logs.Positioned)
include positioned

theorem Positioned.pushEntry {et : LogEntry α} {commandIndex : Int}
    (pushed : logs.pushEntry et = (logs', commandIndex)) :
    logs'.Positioned := by
  have last := positioned.last
  have commit := positioned.commit
  rw [pushEntry_spec pushed]
  exact { positioned with
    last := by simp only [List.length_append, List.length_singleton]; omega
    commit := by simp only; omega }

theorem Positioned.pushEntries (ets : List (LogEntry α)) :
    (logs.pushEntries ets).Positioned := by
  have last := positioned.last
  have commit := positioned.commit
  exact { positioned with
    last := by simp only [Logs.pushEntries]; omega
    commit := by
      simp only [Logs.pushEntries, List.length_append]
      omega }

theorem Positioned.removeAfter {idx : Int} (notBelow : logs.lci ≤ idx)
    (removed : logs.removeAfter idx = some logs') :
    logs'.Positioned := by
  have commit := positioned.commit
  obtain ⟨count, countEq, inBounds, rfl⟩ := removeAfter_spec removed
  exact { positioned with
    last := by simp only [List.length_take]; omega
    commit := by simp only; omega }

theorem Positioned.appends {args : SendEntries α} {status : EntryStatus} {written : Bool}
    (appends : logs.Appends args logs' status written) :
    logs'.Positioned := by
  have commit := positioned.commit
  cases appends with
  | below | unmatched | held => exact positioned
  | appended kept notBelow inside _ _ keptEq inBounds =>
      exact { positioned with
        last := by simp only [List.length_append, List.length_take]; omega
        commit := by simp only; omega }

theorem Positioned.updateCommit {leaderCommit : Int} {item : Option (ApplyEntry α)}
    (result : logs.updateCommit leaderCommit = some (logs', item)) : logs'.Positioned := by
  have commit := positioned.commit
  cases item with
  | none =>
      rw [updateCommit_none result]
      exact positioned
  | some item =>
      obtain ⟨newCommit, batch, larger, newCommitEq, -, rfl, -⟩ := updateCommit_spec result
      exact { positioned with commit := by simp only; omega }

end

theorem Positioned.followerInstallSnapshot (logs : Logs α) {snapshot : Snapshot α}
    (nonneg : 0 ≤ snapshot.lastIncludeIndex) :
    (logs.followerInstallSnapshot snapshot).Positioned where
  last := by simp [Logs.followerInstallSnapshot]
  base := by simp [Logs.followerInstallSnapshot, nonneg]
  fresh := by simp [Logs.followerInstallSnapshot]
  commit := by simp [Logs.followerInstallSnapshot]

theorem Positioned.takeSnapshot (positioned : logs.Positioned) {cmdIndex : Int}
    {bytes : List UInt8} (taken : logs.takeSnapshot cmdIndex bytes = some logs')
    (committed : logs'.offset ≤ logs.lci + 1) : logs'.Positioned := by
  have nonneg := positioned.offset_nonneg
  have last := positioned.last
  have commit := positioned.commit
  obtain ⟨kept, entry, term, passed, found, -, -, -, rfl⟩ := takeSnapshot_spec taken
  have inBounds : kept < logs.entries.length := (List.getElem?_eq_some_iff.mp found).1
  dsimp only at committed
  exact {
    last := by simp only [List.length_drop]; omega
    base := by
      rintro _ ⟨⟩
      exact ⟨by dsimp only; omega, rfl⟩
    fresh := by simp
    commit := by simp only; omega }

/-! ## Every operation keeps the representation -/

theorem empty_representation : (empty : Logs α).Representation where
  toPositioned := empty_positioned
  noopCount := rfl
  counts := by simp [empty]
  width := by simp [empty]

/-- A command never gets the index of a no-op. -/
theorem Representation.pushEntry_noop_iff (ok : logs.Representation) {et : LogEntry α}
    {commandIndex : Int} (pushed : logs.pushEntry et = (logs', commandIndex)) :
    commandIndex = noopIndex ↔ et.commandIndex = noopIndex := by
  have noopCount := ok.noopCount_le
  rw [pushEntry_index pushed]
  split
  case isTrue noop => simp [noop]
  case isFalse command =>
    simp only [command, iff_false]
    unfold noopIndex
    omega

theorem Representation.pushEntry (ok : logs.Representation) {et : LogEntry α}
    {commandIndex : Int} (pushed : logs.pushEntry et = (logs', commandIndex))
    (width : logs'.lli + 1 < 2 ^ 31) : logs'.Representation where
  toPositioned := ok.toPositioned.pushEntry pushed
  noopCount := by
    rw [pushEntry_spec pushed]
    simp only [noops_append, noops_cons, noops_nil, ok.pushEntry_noop_iff pushed, snapshotNoops,
      ok.noopCount]
    omega
  counts := by
    rw [pushEntry_spec pushed]
    exact ok.counts
  width := width

theorem Representation.pushEntries (ok : logs.Representation) {ets : List (LogEntry α)}
    (width : (logs.pushEntries ets).lli + 1 < 2 ^ 31) :
    (logs.pushEntries ets).Representation where
  toPositioned := ok.toPositioned.pushEntries ets
  noopCount := by
    simp only [Logs.pushEntries, noops_append, snapshotNoops, ok.noopCount]
    omega
  counts := ok.counts
  width := width

/-- The no-ops of a log that is cut in two. -/
theorem noops_take_add_drop (entries : List (LogEntry α)) (count : Nat) :
    noops (entries.take count) + noops (entries.drop count) = noops entries := by
  rw [← noops_append, List.take_append_drop]

theorem Representation.removeAfter (ok : logs.Representation) {idx : Int}
    (notBelow : logs.lci ≤ idx) (removed : logs.removeAfter idx = some logs')
    (width : logs'.lli + 1 < 2 ^ 31) : logs'.Representation := by
  have positioned := ok.toPositioned.removeAfter notBelow removed
  obtain ⟨count, countEq, inBounds, rfl⟩ := removeAfter_spec removed
  have cut := noops_take_add_drop logs.entries count
  exact {
    toPositioned := positioned
    noopCount := by
      simp only [snapshotNoops, ok.noopCount]
      omega
    counts := ok.counts
    width := width }

theorem Representation.appends (ok : logs.Representation) {args : SendEntries α}
    {status : EntryStatus} {written : Bool} (appends : logs.Appends args logs' status written)
    (width : logs'.lli + 1 < 2 ^ 31) : logs'.Representation := by
  have positioned := ok.toPositioned.appends appends
  cases appends with
  | below | unmatched | held => exact ok
  | appended kept =>
      have cut := noops_take_add_drop logs.entries kept
      exact {
        toPositioned := positioned
        noopCount := by
          simp only [noops_append, snapshotNoops, ok.noopCount]
          omega
        counts := ok.counts
        width := width }

theorem Representation.updateCommit (ok : logs.Representation) {leaderCommit : Int}
    {item : Option (ApplyEntry α)}
    (result : logs.updateCommit leaderCommit = some (logs', item)) : logs'.Representation := by
  have positioned := ok.toPositioned.updateCommit result
  cases item with
  | none =>
      rw [updateCommit_none result]
      exact ok
  | some item =>
      obtain ⟨newCommit, batch, -, -, -, rfl, -⟩ := updateCommit_spec result
      exact {
        toPositioned := positioned
        noopCount := ok.noopCount
        counts := ok.counts
        width := ok.width }

theorem Representation.followerInstallSnapshot (logs : Logs α) {snapshot : Snapshot α}
    (nonneg : 0 ≤ snapshot.lastIncludeIndex) (width : snapshot.lastIncludeIndex + 1 < 2 ^ 31)
    (counts : snapshot.NoopsFit) : (logs.followerInstallSnapshot snapshot).Representation where
  toPositioned := .followerInstallSnapshot logs nonneg
  noopCount := by simp [Logs.followerInstallSnapshot, snapshotNoops]
  counts := by
    rintro _ ⟨⟩
    exact counts
  width := width

theorem Representation.takeSnapshot (ok : logs.Representation) {cmdIndex : Int}
    {bytes : List UInt8} (command : cmdIndex ≠ noopIndex)
    (taken : logs.takeSnapshot cmdIndex bytes = some logs')
    (committed : logs'.offset ≤ logs.lci + 1) : logs'.Representation := by
  have positioned := ok.toPositioned.takeSnapshot taken committed
  have below := ok.snapshotNoops_le
  obtain ⟨kept, entry, term, passed, found, rfl, -, passedEq, rfl⟩ := takeSnapshot_spec taken
  have cut := noops_take_add_drop logs.entries (kept + 1)
  have atMost := noops_le_length (logs.entries.take (kept + 1))
  have counted : 0 ≤ noops (logs.entries.take (kept + 1)) := by simp [noops]
  rw [List.length_take] at atMost
  have passedIs := passedEq command
  unfold snapshotNoops at below
  exact {
    toPositioned := positioned
    noopCount := by
      simp only [snapshotNoops, ok.noopCount, Option.map_some, Option.getD_some]
      omega
    counts := by
      rintro _ ⟨⟩
      simp only [Snapshot.NoopsFit]
      omega
    width := ok.width }

theorem Representation.restore {sv : Server α} (ok : sv.logs.Representation) (bytes : List UInt8) :
    (sv.encodeState.logs.restore bytes).Representation where
  last := ok.last
  base := by
    intro snapshot membership
    obtain ⟨original, isSnapshot, rfl⟩ := Server.mem_restore membership
    exact ok.base original isSnapshot
  fresh := by
    intro fresh
    simp only [PersistentLogs.restore, Server.encodeState, Option.map_eq_none_iff] at fresh
    exact ok.fresh fresh
  commit := ok.commit
  noopCount := by
    have noopCount := ok.noopCount
    simpa [snapshotNoops, PersistentLogs.restore, Server.encodeState, Function.comp_def]
      using noopCount
  counts := by
    intro snapshot membership
    obtain ⟨original, isSnapshot, rfl⟩ := Server.mem_restore membership
    exact ok.counts original isSnapshot
  width := ok.width

/-! ## Access under the invariant -/

theorem Positioned.entriesAfter (positioned : logs.Positioned) {idx : Int}
    (inside : 0 ≤ idx ∧ idx ≤ logs.lli + 1) : ∃ snapshot sendEntries,
      logs.entriesAfter idx = some (snapshot, sendEntries) ∧
        (snapshot = none → sendEntries ≠ none) := by
  have last := positioned.last
  unfold Logs.entriesAfter
  split
  case isTrue compacted =>
    refine ⟨logs.snapshot, none, rfl, fun isNone => ?_⟩
    have fresh := positioned.fresh isNone
    omega
  case isFalse =>
    obtain ⟨entries, isEntries⟩ : ∃ entries, slice? logs.entries (idx - logs.offset)
        logs.entries.length = some entries := slice?_isSome (by omega)
    obtain ⟨term, isTerm⟩ :=
      positioned.spans.toAnchored.indexLogTermNoLock_isSome (idx - 1) (by omega)
    simp only [isEntries, indexLogTerm, isTerm, Option.bind_eq_bind, Option.bind_some]
    exact ⟨none, some _, rfl, by simp⟩

theorem Positioned.indexLogTerm_isSome (positioned : logs.Positioned) {idx : Int}
    (notBelow : ∀ snapshot ∈ logs.snapshot, snapshot.lastIncludeIndex ≤ idx) :
    ∃ term, logs.indexLogTerm idx = some term := by
  by_cases negative : idx < 0
  · exact ⟨-1, if_pos (.inl negative)⟩
  · refine positioned.spans.toAnchored.indexLogTermNoLock_isSome idx ?_
    cases isSnapshot : logs.snapshot with
    | none =>
        have fresh := positioned.fresh isSnapshot
        omega
    | some snapshot =>
        have base := positioned.base snapshot isSnapshot
        have atLeast := notBelow snapshot isSnapshot
        omega

theorem Positioned.lastLogInfo_isSome (positioned : logs.Positioned) :
    ∃ info, logs.lastLogInfo = some info := by
  have last := positioned.last
  unfold lastLogInfo
  split
  case isTrue =>
    split <;> exact ⟨_, rfl⟩
  case isFalse nonempty =>
    obtain ⟨entry, found⟩ : ∃ entry, index? logs.entries (logs.lli - logs.offset) = some entry :=
      index?_isSome (by omega)
    simp [found]

/-- The calls that index into `entries` stay inside. -/
structure Accessible (logs : Logs α) : Prop where
  updateCommit : ∀ leaderCommit, (logs.updateCommit leaderCommit).isSome
  followerAppendEntries : ∀ args, (logs.followerAppendEntries args).isSome
  entriesAfter : ∀ idx, 0 ≤ idx → idx ≤ logs.lli + 1 → ∃ snapshot sendEntries,
    logs.entriesAfter idx = some (snapshot, sendEntries) ∧
      (snapshot = none → sendEntries ≠ none)
  tryIndexLogTerm : ∀ idx, (logs.tryIndexLogTerm idx).isSome
  indexLogTerm : ∀ idx, (∀ snapshot ∈ logs.snapshot, snapshot.lastIncludeIndex ≤ idx) →
    (logs.indexLogTerm idx).isSome
  lastLogInfo : logs.lastLogInfo.isSome
  removeAfter : ∀ idx, logs.lci ≤ idx → idx < logs.lli → (logs.removeAfter idx).isSome
  takeSnapshot : ∀ entry ∈ logs.entries, entry.commandIndex ≠ noopIndex →
    ∀ bytes, (logs.takeSnapshot entry.commandIndex bytes).isSome

theorem Positioned.accessible (positioned : logs.Positioned) : logs.Accessible where
  updateCommit leaderCommit := by
    obtain ⟨_, _, result⟩ := positioned.spans.updateCommit_isSome leaderCommit
    exact Option.isSome_of_eq_some result
  followerAppendEntries args := by
    obtain ⟨_, _, _, result⟩ := positioned.spans.followerAppendEntries_isSome args
    exact Option.isSome_of_eq_some result
  entriesAfter idx nonneg atMost := positioned.entriesAfter ⟨nonneg, atMost⟩
  tryIndexLogTerm idx := by
    obtain ⟨_, result⟩ := positioned.spans.toAnchored.tryIndexLogTerm_isSome idx
    exact Option.isSome_of_eq_some result
  indexLogTerm idx notBelow := by
    obtain ⟨_, result⟩ := positioned.indexLogTerm_isSome notBelow
    exact Option.isSome_of_eq_some result
  lastLogInfo := by
    obtain ⟨_, result⟩ := positioned.lastLogInfo_isSome
    exact Option.isSome_of_eq_some result
  removeAfter idx notBelow inside := by
    have last := positioned.last
    have commit := positioned.commit
    obtain ⟨_, result⟩ := removeAfter_isSome logs idx (by omega)
    exact Option.isSome_of_eq_some result
  takeSnapshot entry membership command bytes := by
    obtain ⟨k, found⟩ := List.mem_iff_getElem?.mp membership
    obtain ⟨_, result, -⟩ := positioned.spans.toAnchored.takeSnapshot_isSome found rfl command bytes
    exact Option.isSome_of_eq_some result

/-! ## The operations together -/

/-- One operation on a log, with the log it leaves before the atomics are narrowed. -/
inductive Evolves (logs : Logs α) : Logs α → Prop where
  | pushEntry (et : LogEntry α) : Evolves logs (logs.pushEntry et).1
  | pushEntries (ets : List (LogEntry α)) : Evolves logs (logs.pushEntries ets)
  /-- Cut the log as `followerAppendEntries` does. -/
  | removeAfter {idx : Int} {logs' : Logs α} (notBelow : logs.lci ≤ idx)
      (inside : idx < logs.lli) (result : logs.removeAfter idx = some logs') : Evolves logs logs'
  | followerAppendEntries {args : SendEntries α} {logs' : Logs α} {status : EntryStatus}
      {written : Bool} (result : logs.followerAppendEntries args = some (logs', status, written)) :
      Evolves logs logs'
  | updateCommit {leaderCommit : Int} {logs' : Logs α} {item : Option (ApplyEntry α)}
      (result : logs.updateCommit leaderCommit = some (logs', item)) : Evolves logs logs'
  | followerInstallSnapshot {snapshot : Snapshot α} (nonneg : 0 ≤ snapshot.lastIncludeIndex)
      (counts : snapshot.NoopsFit) : Evolves logs (logs.followerInstallSnapshot snapshot)
  /-- Compact up to a committed command. -/
  | takeSnapshot {cmdIndex : Int} {bytes : List UInt8} {logs' : Logs α}
      (committed : logs.HasCommitted cmdIndex)
      (result : logs.takeSnapshot cmdIndex bytes = some logs') : Evolves logs logs'
  /-- Persist the log and start again from what was persisted. -/
  | recovery {sv : Server α} {bytes : List UInt8} {logs' : Logs α} (isLogs : sv.logs = logs)
      (result : restoreLogs (some sv.encodeState.logs) bytes = some logs') : Evolves logs logs'

theorem Representation.evolves (ok : logs.Representation) (evolves : logs.Evolves logs')
    (width : logs'.lli + 1 < 2 ^ 31) : logs'.Representation := by
  cases evolves with
  | pushEntry et => exact ok.pushEntry rfl width
  | pushEntries ets => exact ok.pushEntries width
  | removeAfter notBelow _ result => exact ok.removeAfter notBelow result width
  | followerAppendEntries result =>
      have last := ok.last
      exact ok.appends (followerAppendEntries_of_last (by omega) result) width
  | updateCommit result => exact ok.updateCommit result
  | followerInstallSnapshot nonneg counts => exact .followerInstallSnapshot logs nonneg width counts
  | @takeSnapshot _ bytes _ committed result =>
      obtain ⟨_, taken, atMost⟩ := ok.spans.takeSnapshot_committed committed bytes
      cases taken.symm.trans result
      exact ok.takeSnapshot committed.1 result atMost
  | recovery isLogs result =>
      subst isLogs
      simp only [restoreLogs, Option.bind_eq_bind, Option.bind_eq_some_iff] at result
      obtain ⟨-, -, result⟩ := result
      cases result
      exact ok.restore _

/-- A log that is compacted up to its first command, with a no-op before and one behind. -/
def compactedFirst : Logs Nat where
  entries := [⟨noopIndex, 2, none⟩, ⟨2, 2, some 8⟩]
  lci := 2
  lli := 3
  lai := 1
  noopCount := 2
  offset := 2
  snapshot := some ⟨[], 1, 1, 1, 1, [⟨noopIndex, 1, none⟩, ⟨1, 1, some 7⟩]⟩

theorem compactedFirst_representation : compactedFirst.Representation where
  last := by decide
  base := by decide
  fresh := by decide
  commit := by decide
  noopCount := by decide
  counts := by unfold Snapshot.NoopsFit; decide
  width := by decide

end Logs

end GoLab.Raft
