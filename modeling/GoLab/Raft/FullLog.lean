import GoLab.Lib.LogTree
import GoLab.Raft.Cursors

/-!
# The whole log

`Logs.full` is the log with the entries a snapshot stands for put back in front.
The operations are described on it, and a log position is then the position in a
plain list, whatever has been compacted.
-/

namespace GoLab.Raft

variable {α : Type}
variable {et : LogEntry α} {commandIndex : Int} {cmdIndex : Int} {bytes : List UInt8}

/-! ## Command indices -/

/-- The command indices of a log count its commands. -/
def Dense (log : List (LogEntry α)) : Prop :=
  ∀ k entry, log[k]? = some entry → entry.commandIndex ≠ noopIndex →
    entry.commandIndex = k + 1 - noops (log.take k)

namespace Dense

theorem nil : Dense ([] : List (LogEntry α)) := by
  simp [Dense]

theorem cut {log whole : List (LogEntry α)} (dense : Dense whole) (front : log <+: whole) :
    Dense log := by
  obtain ⟨rest, rfl⟩ := front
  intro k entry found command
  have inBounds : k < log.length := (List.getElem?_eq_some_iff.mp found).1
  have := dense k entry (getElem?_extend (List.prefix_append ..) found) command
  rwa [List.take_append_of_le_length (Nat.le_of_lt inBounds)] at this

theorem snoc {log : List (LogEntry α)} {entry : LogEntry α} (dense : Dense log)
    (next : entry.commandIndex ≠ noopIndex → entry.commandIndex = log.length + 1 - noops log) :
    Dense (log ++ [entry]) := by
  intro k found isFound command
  rcases getElem?_snoc.mp isFound with earlier | ⟨rfl, rfl⟩
  · have inBounds : k < log.length := (List.getElem?_eq_some_iff.mp earlier).1
    rw [List.take_append_of_le_length (Nat.le_of_lt inBounds)]
    exact dense k found earlier command
  · simpa using next command

end Dense

/-! ## Snapshots and logs -/

/-- The fields of a snapshot are those of the entries it stands for. -/
structure Snapshot.Ok (snapshot : Snapshot α) : Prop where
  length : (snapshot.compacted.length : Int) = snapshot.lastIncludeIndex + 1
  term : snapshot.compacted.getLast?.map LogEntry.term = some snapshot.lastIncludeTerm
  noopCount : snapshot.noopCount = noops snapshot.compacted

/-- The command index of a snapshot counts the commands it stands for. -/
def Snapshot.Counted (snapshot : Snapshot α) : Prop :=
  snapshot.lastIncludeCmdIndex = snapshot.lastIncludeIndex + 1 - snapshot.noopCount

/-- The fields of a log are those of its entries. -/
structure Logs.Sound (logs : Logs α) : Prop where
  cursors : logs.Ok
  snapshot : ∀ snapshot ∈ logs.snapshot, snapshot.Ok
  noopCount : logs.noopCount = noops logs.full

namespace Logs

variable {logs logs' : Logs α}

theorem Sound.offset_eq (ok : logs.Sound) : (logs.compacted.length : Int) = logs.offset := by
  unfold compacted
  cases isSnapshot : logs.snapshot with
  | none => simp [(ok.cursors.fresh isSnapshot).1]
  | some snapshot =>
      have length := (ok.snapshot snapshot isSnapshot).length
      have base := ok.cursors.base snapshot isSnapshot
      simp only [Option.map_some, Option.getD_some]
      omega

theorem Sound.length_eq (ok : logs.Sound) : (logs.full.length : Int) = logs.lli + 1 := by
  have offset := ok.offset_eq
  have last := ok.cursors.last
  unfold full
  rw [List.length_append]
  omega

theorem getElem?_entries (logs : Logs α) (k : Nat) :
    logs.entries[k]? = logs.full[logs.compacted.length + k]? := by
  unfold full
  rw [List.getElem?_append_right (Nat.le_add_right ..), Nat.add_sub_cancel_left]

theorem Sound.index?_entries (ok : logs.Sound) {idx : Int} {entry : LogEntry α}
    (found : index? logs.entries (idx - logs.offset) = some entry) :
    0 ≤ idx ∧ logs.full[idx.toNat]? = some entry := by
  have offset := ok.offset_eq
  rw [index?_eq_some, getElem?_entries] at found
  have position : logs.compacted.length + (idx - logs.offset).toNat = idx.toNat := by omega
  rw [position] at found
  exact ⟨by omega, found.2⟩

/-- The entry a snapshot ends with. -/
theorem Sound.term_at_base (ok : logs.Sound) {snapshot : Snapshot α}
    (isSnapshot : logs.snapshot = some snapshot) : 0 ≤ snapshot.lastIncludeIndex ∧
      logs.full[snapshot.lastIncludeIndex.toNat]?.map LogEntry.term =
        some snapshot.lastIncludeTerm := by
  have snapshotOk := ok.snapshot snapshot isSnapshot
  have length := snapshotOk.length
  have term := snapshotOk.term
  have nonempty : snapshot.compacted ≠ [] := by
    intro empty
    simp [empty] at term
  have positive := List.length_pos_iff.mpr nonempty
  have compactedEq : logs.compacted = snapshot.compacted := by simp [compacted, isSnapshot]
  refine ⟨by omega, ?_⟩
  rw [← term, List.getLast?_eq_getElem?, full, compactedEq,
    List.getElem?_append_left (by omega)]
  congr
  omega

/-- The term of an entry of the log, compacted or not. -/
theorem Sound.term_at (ok : logs.Sound) {idx term : Int} (inside : 0 ≤ idx ∧ idx ≤ logs.lli)
    (found : logs.indexLogTermNoLock idx = some term) :
    logs.full[idx.toNat]?.map LogEntry.term = some term := by
  unfold indexLogTermNoLock at found
  rw [if_neg (by omega)] at found
  split at found
  case h_1 snapshot isSnapshot =>
    split at found
    case isTrue => cases found
    split at found
    case isTrue atBase =>
      cases found
      rw [atBase]
      exact (ok.term_at_base isSnapshot).2
    case isFalse =>
      rw [Option.map_eq_some_iff] at found
      obtain ⟨entry, isEntry, rfl⟩ := found
      rw [(ok.index?_entries isEntry).2, Option.map_some]
  case h_2 =>
    rw [Option.map_eq_some_iff] at found
    obtain ⟨entry, isEntry, rfl⟩ := found
    rw [(ok.index?_entries isEntry).2, Option.map_some]

theorem Sound.tryIndexLogTerm (ok : logs.Sound) {idx term : Int}
    (found : logs.tryIndexLogTerm idx = some (term, true)) :
    0 ≤ idx ∧ logs.full[idx.toNat]?.map LogEntry.term = some term := by
  have entry (found : (do
      let entry ← index? logs.entries (idx - logs.offset)
      return (entry.term, true)) = some (term, true)) :
      0 ≤ idx ∧ logs.full[idx.toNat]?.map LogEntry.term = some term := by
    simp only [Option.bind_eq_bind, Option.bind_eq_some_iff] at found
    obtain ⟨entry, isEntry, isTerm⟩ := found
    obtain ⟨nonneg, isEntry⟩ := ok.index?_entries isEntry
    cases isTerm
    exact ⟨nonneg, by rw [isEntry, Option.map_some]⟩
  unfold Logs.tryIndexLogTerm at found
  split at found
  case h_1 snapshot isSnapshot =>
    split at found
    case isTrue atBase =>
      cases found
      rw [atBase]
      exact ok.term_at_base isSnapshot
    split at found
    case isTrue => cases found
    case isFalse => exact entry found
  case h_2 =>
    split at found
    case isTrue => cases found
    case isFalse => exact entry found

/-- The payload of a request is a snapshot or an end of the log. -/
theorem Sound.entriesAfter (ok : logs.Sound) {idx : Int} {snapshot : Option (Snapshot α)}
    {sendEntries : Option (SendEntries α)}
    (payload : logs.entriesAfter idx = some (snapshot, sendEntries)) :
    (snapshot = logs.snapshot ∧ sendEntries = none) ∨
      ∃ sent, snapshot = none ∧ sendEntries = some sent ∧ 0 ≤ idx ∧
        sent.prevLogInfo.index + 1 = idx ∧ idx ≤ logs.full.length ∧
        sent.entries = logs.full.drop idx.toNat ∧
        (0 < idx → logs.full[(idx - 1).toNat]?.map LogEntry.term = some sent.prevLogInfo.term) := by
  have offset := ok.offset_eq
  have last := ok.cursors.last
  have length := ok.length_eq
  unfold Logs.entriesAfter at payload
  split at payload
  case isTrue =>
    cases payload
    exact .inl ⟨rfl, rfl⟩
  case isFalse notBelow =>
    simp only [Option.bind_eq_bind, Option.bind_eq_some_iff, slice?_eq_some] at payload
    obtain ⟨entries, ⟨bounds, rfl⟩, term, isTerm, payload⟩ := payload
    cases payload
    refine .inr ⟨_, rfl, rfl, by omega, by simp, by omega, ?_, fun positive => ?_⟩
    · have position : idx.toNat = logs.compacted.length + (idx - logs.offset).toNat := by omega
      have whole : (logs.entries.drop (idx - logs.offset).toNat).take
          (logs.entries.length - (idx - logs.offset)).toNat =
            logs.entries.drop (idx - logs.offset).toNat := by
        rw [List.take_of_length_le]
        rw [List.length_drop]
        omega
      simp only [whole, full, position, List.drop_append, Nat.add_sub_cancel_left]
      rw [List.drop_eq_nil_of_le (Nat.le_add_right ..), List.nil_append]
    · exact ok.term_at (by omega) isTerm

/-! ## Every operation keeps the fields right -/

theorem noops_le_length (entries : List (LogEntry α)) : noops entries ≤ entries.length := by
  unfold noops
  exact_mod_cast List.countP_le_length

theorem empty_sound : (empty : Logs α).Sound where
  cursors := empty_ok
  snapshot := by simp [empty]
  noopCount := rfl

theorem full_pushEntry (pushed : logs.pushEntry et = (logs', commandIndex)) :
    logs'.full = logs.full ++ [{ et with commandIndex }] := by
  rw [pushEntry_spec pushed]
  simp [full, compacted]

/-- The command index `pushEntry` gives to an entry. -/
theorem pushEntry_index (pushed : logs.pushEntry et = (logs', commandIndex)) :
    commandIndex = if et.commandIndex = noopIndex then noopIndex
      else logs.lli + 1 - logs.noopCount + 1 := by
  unfold pushEntry at pushed
  dsimp only at pushed
  split at pushed
  case isTrue noop =>
    cases pushed
    rw [if_pos noop, noop]
  case isFalse command =>
    cases pushed
    rw [if_neg command]

theorem Sound.pushEntry_noop_iff (ok : logs.Sound)
    (pushed : logs.pushEntry et = (logs', commandIndex)) :
    commandIndex = noopIndex ↔ et.commandIndex = noopIndex := by
  have atMost := noops_le_length logs.full
  have length := ok.length_eq
  have noopCount := ok.noopCount
  rw [pushEntry_index pushed]
  split
  case isTrue noop => simp [noop]
  case isFalse command =>
    simp only [command, iff_false]
    unfold noopIndex
    omega

theorem Sound.pushEntry (ok : logs.Sound) (pushed : logs.pushEntry et = (logs', commandIndex)) :
    logs'.Sound where
  cursors := ok.cursors.pushEntry pushed
  snapshot := by
    rw [pushEntry_spec pushed]
    exact ok.snapshot
  noopCount := by
    rw [full_pushEntry pushed, noops_append, noops_cons, ← ok.noopCount, pushEntry_spec pushed]
    simp [ok.pushEntry_noop_iff pushed]

/-- The entry a leader appends continues the count of commands. -/
theorem Sound.dense_pushEntry (ok : logs.Sound) (dense : Dense logs.full)
    (pushed : logs.pushEntry et = (logs', commandIndex)) :
    Dense logs'.full := by
  rw [full_pushEntry pushed]
  refine dense.snoc fun command => ?_
  have length := ok.length_eq
  have noopCount := ok.noopCount
  have index := pushEntry_index pushed
  rw [if_neg (mt (ok.pushEntry_noop_iff pushed).mpr command)] at index
  simp only
  omega

/-- Where a request is written, the log up to `prev` stays and the entries follow. -/
theorem Sound.full_appended (ok : logs.Sound) {args : SendEntries α} {status : EntryStatus}
    (appends : logs.Appends args logs' status true) :
    logs'.full = logs.full.take (args.prevLogInfo.index + 1).toNat ++ args.entries := by
  have offset := ok.offset_eq
  cases appends with
  | appended kept _ _ _ _ keptEq =>
      have position : (args.prevLogInfo.index + 1).toNat = logs.compacted.length + kept := by omega
      simp only [full, compacted] at position ⊢
      rw [position, List.take_length_add_append, List.append_assoc]

theorem Sound.appends (ok : logs.Sound) {args : SendEntries α} {status : EntryStatus}
    {appended : Bool} (appends : logs.Appends args logs' status appended) : logs'.Sound where
  cursors := ok.cursors.appends appends
  snapshot := by
    rw [appends.snapshot_eq]
    exact ok.snapshot
  noopCount := by
    have noopCount := ok.noopCount
    cases appends with
    | below | unmatched | held => exact noopCount
    | appended kept =>
        have cut := noops_append (logs.entries.take kept) (logs.entries.drop kept)
        rw [List.take_append_drop] at cut
        simp only [full, compacted, noops_append] at noopCount ⊢
        omega

theorem Sound.followerInstallSnapshot (logs : Logs α) {snapshot : Snapshot α}
    (ok : snapshot.Ok) : (logs.followerInstallSnapshot snapshot).Sound where
  cursors := .followerInstallSnapshot ..
  snapshot := by
    rintro _ ⟨⟩
    exact ok
  noopCount := by
    simp only [Logs.followerInstallSnapshot, full, compacted, Option.map_some, Option.getD_some,
      List.append_nil]
    exact ok.noopCount

theorem full_followerInstallSnapshot (logs : Logs α) (snapshot : Snapshot α) :
    (logs.followerInstallSnapshot snapshot).full = snapshot.compacted := by
  simp [Logs.followerInstallSnapshot, full, compacted]

theorem full_takeSnapshot (taken : logs.takeSnapshot cmdIndex bytes = some logs') :
    logs'.full = logs.full := by
  obtain ⟨kept, entry, term, passed, -, -, -, -, rfl⟩ := takeSnapshot_spec taken
  simp [full, compacted]

theorem Sound.noops_compacted (ok : logs.Sound) :
    (logs.snapshot.map Snapshot.noopCount).getD 0 = noops logs.compacted := by
  unfold compacted
  cases isSnapshot : logs.snapshot with
  | none => rfl
  | some snapshot => exact (ok.snapshot snapshot isSnapshot).noopCount

theorem full_take (logs : Logs α) (kept : Nat) :
    logs.full.take (logs.compacted.length + kept) = logs.compacted ++ logs.entries.take kept := by
  unfold full
  rw [List.take_length_add_append]

/-- The snapshot `takeSnapshot` builds describes the entries it stands for. -/
theorem Sound.taken (ok : logs.Sound) (command : cmdIndex ≠ noopIndex)
    (taken : logs.takeSnapshot cmdIndex bytes = some logs') :
    ∀ snapshot ∈ logs'.snapshot, snapshot.Ok := by
  obtain ⟨kept, entry, term, passed, found, rfl, isTerm, counted, rfl⟩ := takeSnapshot_spec taken
  rintro _ ⟨⟩
  have offset := ok.offset_eq
  have last := ok.cursors.last
  have inBounds : kept < logs.entries.length := (List.getElem?_eq_some_iff.mp found).1
  refine {
    length := ?_
    term := ?_
    noopCount := ?_ }
  · simp only [List.length_append, List.length_take]
    omega
  · have atPlace := ok.term_at (by omega) isTerm
    have position : (logs.offset + kept).toNat = logs.compacted.length + kept := by omega
    rw [position, ← getElem?_entries, found] at atPlace
    simpa [List.take_add_one, found] using atPlace
  · simp only [noops_append, ← ok.noops_compacted, counted command]
    omega

theorem Sound.counted_taken (ok : logs.Sound) (dense : Dense logs.full)
    (command : cmdIndex ≠ noopIndex) (taken : logs.takeSnapshot cmdIndex bytes = some logs') :
    ∀ snapshot ∈ logs'.snapshot, snapshot.Counted := by
  obtain ⟨kept, entry, term, passed, found, rfl, -, counted, rfl⟩ := takeSnapshot_spec taken
  rintro _ ⟨⟩
  have offset := ok.offset_eq
  have split : logs.entries.take (kept + 1) = logs.entries.take kept ++ [entry] := by
    rw [List.take_add_one, found]
    rfl
  have none : noops [entry] = 0 := by simp [noops_cons, command]
  have passedEq := counted command
  rw [split, noops_append, none] at passedEq
  have index := dense _ entry (by rw [← getElem?_entries, found]) command
  rw [full_take, noops_append] at index
  simp only [Snapshot.Counted, passedEq, ok.noops_compacted]
  omega

theorem Sound.takeSnapshot (ok : logs.Sound) (command : cmdIndex ≠ noopIndex)
    (taken : logs.takeSnapshot cmdIndex bytes = some logs') : logs'.Sound where
  cursors := ok.cursors.takeSnapshot taken
  snapshot := ok.taken command taken
  noopCount := by
    have noopCount := ok.noopCount
    rw [full_takeSnapshot taken]
    obtain ⟨kept, entry, term, passed, -, -, -, -, rfl⟩ := takeSnapshot_spec taken
    exact noopCount

theorem Sound.updateCommit (ok : logs.Sound) {leaderCommit : Int} {item : ApplyEntry α}
    (result : logs.updateCommit leaderCommit = some (logs', some item)) : logs'.Sound where
  cursors := ok.cursors.updateCommit result
  snapshot := by
    obtain ⟨commit, batch, -, -, -, rfl, -⟩ := updateCommit_spec result
    exact ok.snapshot
  noopCount := by
    obtain ⟨commit, batch, -, -, -, rfl, -⟩ := updateCommit_spec result
    exact ok.noopCount

theorem Sound.applied (ok : logs.Sound) (compacted : logs.snapshot.isSome) (lai : Int) :
    ({ logs with lai } : Logs α).Sound where
  cursors := ok.cursors.applied compacted lai
  snapshot := ok.snapshot
  noopCount := ok.noopCount

theorem full_updateCommit {leaderCommit : Int} {item : ApplyEntry α}
    (result : logs.updateCommit leaderCommit = some (logs', some item)) :
    logs'.full = logs.full := by
  obtain ⟨commit, batch, -, -, -, rfl, -⟩ := updateCommit_spec result
  rfl

end Logs

/-! ## The log on disk -/

section

variable (sv : Server α) (bytes : List UInt8)

theorem Server.compacted_restore :
    (sv.encodeState.logs.restore bytes).compacted = sv.logs.compacted := by
  simp [Logs.compacted, PersistentLogs.restore, encodeState, Function.comp_def]

theorem Server.full_restore : (sv.encodeState.logs.restore bytes).full = sv.logs.full := by
  unfold Logs.full
  rw [compacted_restore]
  rfl

theorem Logs.Sound.restore {sv : Server α} (ok : sv.logs.Sound) :
    (sv.encodeState.logs.restore bytes).Sound where
  cursors := ok.cursors.restore bytes
  snapshot := by
    intro snapshot membership
    obtain ⟨original, isSnapshot, rfl⟩ := Server.mem_restore membership
    have originalOk := ok.snapshot original isSnapshot
    exact ⟨originalOk.length, originalOk.term, originalOk.noopCount⟩
  noopCount := by
    rw [Server.full_restore]
    exact ok.noopCount

end

end GoLab.Raft
