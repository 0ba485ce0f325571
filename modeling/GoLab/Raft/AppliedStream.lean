import GoLab.Raft.LogOps

/-!
# The stream of applied entries

A log is driven by arbitrary calls, and every item it sends to the applier is kept.  The
items read the log without gap or overlap: a batch starts right after the last index of
the item before it and ends at the commit index, and committed entries never change as
long as they are not compacted.

The commit index is an `atomic.Int32`, so an installed snapshot must end below `2^31`.
-/

namespace GoLab.Raft

variable {α : Type}

/-- The last log index an item stands for. -/
def ApplyEntry.lastIndex : ApplyEntry α → Int
  | .log _ lai => lai
  | .snapshot taken => taken.lastIncludeIndex

/-- The last log index the items sent so far stand for. -/
def lastSent (sent : List (ApplyEntry α)) : Int :=
  (sent.getLast?.map ApplyEntry.lastIndex).getD (-1)

@[simp] theorem lastSent_append (sent : List (ApplyEntry α)) (item : ApplyEntry α) :
    lastSent (sent ++ [item]) = item.lastIndex := by
  simp [lastSent]

/-- A log and the items it has sent to the applier. -/
structure Applying (α : Type) where
  logs : Logs α
  sent : List (ApplyEntry α)
  deriving DecidableEq, Repr

namespace Applying

/-- A new log. -/
def init : Applying α := ⟨.empty, []⟩

/-- One call. -/
def step (op : LogOp α) (s : Applying α) : Option (Applying α) := do
  let outcome ← s.logs.perform op
  return ⟨outcome.stored.logs, s.sent ++ outcome.item.toList⟩

/-- Snapshots are taken at committed commands that are still in the log, and installed
above the commit index. -/
def Legal (s : Applying α) : LogOp α → Prop
  | .takeSnapshot cmdIndex _ => s.logs.HasCommitted cmdIndex
  | .followerInstallSnapshot snapshot => s.logs.lci < snapshot.lastIncludeIndex
  | _ => True

instance (s : Applying α) (op : LogOp α) : Decidable (s.Legal op) := by
  unfold Legal
  cases op <;> infer_instance

/-- Installed snapshots end below `2^31`. -/
def Narrow : LogOp α → Prop
  | .followerInstallSnapshot snapshot => snapshot.lastIncludeIndex < 2 ^ 31
  | _ => True

instance (op : LogOp α) : Decidable (Narrow op) := by
  unfold Narrow
  cases op <;> infer_instance

end Applying

namespace Logs

variable {logs logs' : Logs α}

/-- `logs'` comes after `logs`: the commit index has not decreased, and a committed entry
is the same as long as it is not compacted. -/
structure Keeps (logs logs' : Logs α) : Prop where
  offset : logs.offset ≤ logs'.offset
  commit : logs.lci ≤ logs'.lci
  entries : ∀ idx ≤ logs.lci, logs'.offset ≤ idx → logs'.entryAt idx = logs.entryAt idx

theorem Keeps.refl (logs : Logs α) : logs.Keeps logs :=
  ⟨Int.le_refl _, Int.le_refl _, fun _ _ _ => rfl⟩

theorem Keeps.trans {logs'' : Logs α} (first : logs.Keeps logs') (second : logs'.Keeps logs'') :
    logs.Keeps logs'' where
  offset := Int.le_trans first.offset second.offset
  commit := Int.le_trans first.commit second.commit
  entries idx committed notCompacted := by
    rw [second.entries idx (Int.le_trans committed first.commit) notCompacted]
    exact first.entries idx committed (Int.le_trans second.offset notCompacted)

/-- `raw` has the log of `logs` up to the commit index, and anything behind it. -/
structure Rewrites (logs raw : Logs α) : Prop where
  entries : ∃ (kept : Nat) (ets : List (LogEntry α)), logs.lci + 1 ≤ logs.offset + kept ∧
    kept ≤ logs.entries.length ∧ raw.entries = logs.entries.take kept ++ ets
  offset : raw.offset = logs.offset
  lci : raw.lci = logs.lci
  snapshot : raw.snapshot = logs.snapshot
  last : -2 ^ 31 ≤ raw.lli ∧ raw.lli < raw.offset + raw.entries.length

theorem Rewrites.refl (spans : logs.Spans) (range : -2 ^ 31 ≤ logs.lli) : logs.Rewrites logs where
  entries := by
    have commit := spans.commit
    exact ⟨logs.entries.length, [], by omega, Nat.le_refl _, by simp⟩
  offset := rfl
  lci := rfl
  snapshot := rfl
  last := ⟨range, spans.last⟩

theorem Rewrites.pushEntry (spans : logs.Spans) (range : -2 ^ 31 ≤ logs.lli) {et : LogEntry α}
    {commandIndex : Int} (pushed : logs.pushEntry et = (logs', commandIndex)) :
    logs.Rewrites logs' := by
  have commit := spans.commit
  have last := spans.last
  rw [pushEntry_spec pushed]
  exact {
    entries := ⟨logs.entries.length, _, by omega, Nat.le_refl _, by rw [List.take_length]⟩
    offset := rfl
    lci := rfl
    snapshot := rfl
    last := by simp only [List.length_append, List.length_singleton]; omega }

/-- What `replaceAfter` writes, wherever `lli` points to. -/
theorem Rewrites.replaceAfter (spans : logs.Spans) (nonneg : 0 ≤ logs.offset) {idx : Int}
    {ets : List (LogEntry α)} (notBelow : logs.lci ≤ idx)
    (result : logs.replaceAfter idx ets = some logs') : logs.Rewrites logs' := by
  have commit := spans.commit
  unfold Logs.replaceAfter at result
  split at result
  case isTrue =>
    rw [Option.map_eq_some_iff] at result
    obtain ⟨shorter, removed, rfl⟩ := result
    obtain ⟨kept, keptEq, inBounds, rfl⟩ := removeAfter_spec removed
    exact {
      entries := ⟨kept, ets, by omega, inBounds, rfl⟩
      offset := rfl
      lci := rfl
      snapshot := rfl
      last := by simp only [pushEntries]; omega }
  case isFalse =>
    cases result
    exact {
      entries := ⟨logs.entries.length, ets, by omega, Nat.le_refl _, by simp [pushEntries]⟩
      offset := rfl
      lci := rfl
      snapshot := rfl
      last := by simp only [pushEntries]; omega }

theorem Rewrites.followerAppendEntries (spans : logs.Spans) (nonneg : 0 ≤ logs.offset)
    (range : -2 ^ 31 ≤ logs.lli) {args : SendEntries α} {status : EntryStatus} {written : Bool}
    (result : logs.followerAppendEntries args = some (logs', status, written)) :
    logs.Rewrites logs' := by
  have same : logs.Rewrites logs := .refl spans range
  unfold Logs.followerAppendEntries at result
  dsimp only at result
  split at result
  case isTrue => cases result; exact same
  split at result
  case isTrue => cases result; exact same
  split at result
  case isTrue => cases result; exact same
  case isFalse notBelow _ _ =>
    simp only [Option.bind_eq_bind, Option.bind_eq_some_iff] at result
    obtain ⟨matched, -, result⟩ := result
    split at result
    case isFalse => cases result; exact same
    split at result
    case isFalse => cases result; exact same
    case isTrue =>
      rw [Option.bind_eq_some_iff] at result
      obtain ⟨replaced, isReplaced, result⟩ := result
      cases result
      exact .replaceAfter spans nonneg (Int.not_lt.mp notBelow) isReplaced

/-- The committed entries are where they were. -/
theorem Rewrites.keeps (spans : logs.Spans) (rewrites : logs.Rewrites logs')
    (lci : logs.lci = int32 logs.lci) : logs.Keeps logs'.stored := by
  have commit := spans.commit
  obtain ⟨kept, ets, enough, inBounds, isEntries⟩ := rewrites.entries
  refine ⟨Int.le_of_eq rewrites.offset.symm, ?_, fun idx committed notCompacted => ?_⟩
  · exact Int.le_of_eq (lci.trans (congrArg int32 rewrites.lci.symm))
  · simp only [entryAt, index?, Logs.stored, rewrites.offset, isEntries] at notCompacted ⊢
    rw [if_pos (by omega), List.getElem?_append_left (by rw [List.length_take]; omega),
      List.getElem?_take, if_pos (by omega), if_pos (by omega)]

end Logs

namespace Applying

variable {s s' : Applying α}

/-- What a call sends. -/
inductive Sends (s s' : Applying α) : Prop where
  | nothing (sent : s'.sent = s.sent) (commit : s'.logs.lci = s.logs.lci)
  /-- A batch: the entries after the last index sent, up to the commit index stored. -/
  | batch (entries : List (LogEntry α)) (sent : s'.sent = s.sent ++ [.log entries s'.logs.lci])
      (length : (entries.length : Int) = s'.logs.lci - lastSent s.sent)
      (exact : ∀ k < entries.length,
        entries[k]? = s'.logs.entryAt (lastSent s.sent + 1 + k))
  | snapshot (snapshot : Snapshot α) (sent : s'.sent = s.sent ++ [.snapshot snapshot])
      (commit : s'.logs.lci = snapshot.lastIncludeIndex)

/-- The cursors point into the log and are 32-bit numbers, and everything up to the commit
index has been sent. -/
structure Ok (s : Applying α) : Prop where
  spans : s.logs.Spans
  offset : 0 ≤ s.logs.offset
  lci : s.logs.lci < 2 ^ 31
  lli : -2 ^ 31 ≤ s.logs.lli ∧ s.logs.lli < 2 ^ 31
  sent : lastSent s.sent = s.logs.lci

theorem init_ok : (init : Applying α).Ok where
  spans := {
    last := by simp [init, Logs.empty]
    commit := by simp [init, Logs.empty]
    base := by simp [init, Logs.empty]
    fresh := fun _ => rfl }
  offset := Int.le_refl _
  lci := by simp [init, Logs.empty]
  lli := by simp [init, Logs.empty]
  sent := rfl

theorem Ok.lci_range (ok : s.Ok) : -2 ^ 31 ≤ s.logs.lci ∧ s.logs.lci < 2 ^ 31 := by
  have offset := ok.offset
  have commit := ok.spans.commit
  have lci := ok.lci
  omega

theorem Ok.int32_lci (ok : s.Ok) : s.logs.lci = int32 s.logs.lci :=
  (int32_eq ok.lci_range).symm

/-- A call that sends nothing and leaves the log up to the commit index alone. -/
theorem Ok.rewrites (ok : s.Ok) {logs : Logs α} (rewrites : s.logs.Rewrites logs) :
    (⟨logs.stored, s.sent⟩ : Applying α).Ok ∧ s.logs.Keeps logs.stored ∧
      Sends s ⟨logs.stored, s.sent⟩ := by
  have commit := ok.spans.commit
  have atMost := int32_le rewrites.last.1
  have last := rewrites.last.2
  have lciEq : logs.stored.lci = s.logs.lci := by rw [Logs.stored, rewrites.lci, ← ok.int32_lci]
  obtain ⟨kept, ets, enough, inBounds, isEntries⟩ := rewrites.entries
  refine ⟨?_, rewrites.keeps ok.spans ok.int32_lci, .nothing rfl lciEq⟩
  exact {
    spans := {
      last := by simp only [Logs.stored]; omega
      commit := by
        rw [lciEq]
        simp only [Logs.stored, rewrites.offset, isEntries, List.length_append, List.length_take]
        omega
      base := by
        simp only [Logs.stored, rewrites.offset, rewrites.snapshot]
        exact ok.spans.base
      fresh := by
        simp only [Logs.stored, rewrites.offset, rewrites.snapshot]
        exact ok.spans.fresh }
    offset := by
      simp only [Logs.stored, rewrites.offset]
      exact ok.offset
    lci := lciEq ▸ ok.lci
    lli := int32_range _
    sent := lciEq ▸ ok.sent }

theorem Ok.updateCommit (ok : s.Ok) {leaderCommit : Int} {logs : Logs α} {item : ApplyEntry α}
    (result : s.logs.updateCommit leaderCommit = some (logs, some item)) :
    (⟨logs.stored, s.sent ++ [item]⟩ : Applying α).Ok ∧ s.logs.Keeps logs.stored ∧
      Sends s ⟨logs.stored, s.sent ++ [item]⟩ := by
  have commit := ok.spans.commit
  have last := ok.spans.last
  have lci := ok.lci_range
  have lli := ok.lli
  have sent := ok.sent
  obtain ⟨newCommit, batch, larger, newCommitEq, window, rfl, rfl⟩ := Logs.updateCommit_spec result
  have commitEq : int32 newCommit = newCommit := int32_eq (by omega)
  have lliEq : int32 s.logs.lli = s.logs.lli := int32_eq lli
  have length := length_of_slice? window
  rw [slice?_eq_some] at window
  obtain ⟨bounds, rfl⟩ := window
  simp only [Logs.stored, commitEq, lliEq]
  refine ⟨?_, ⟨Int.le_refl _, by simp only; omega, fun _ _ _ => rfl⟩,
    .batch _ rfl (by simp only; omega) fun k inside => ?_⟩
  · exact {
      spans := { ok.spans with commit := by simp only; omega }
      offset := ok.offset
      lci := by simp only; omega
      lli := lli
      sent := by simp [ApplyEntry.lastIndex] }
  · rw [sent, Logs.entryAt, index?, if_pos (by simp only; omega), List.getElem?_take,
      if_pos (by rw [List.length_take] at inside; omega), List.getElem?_drop]
    congr 1
    simp only
    omega

theorem Ok.takeSnapshot (ok : s.Ok) {cmdIndex : Int} {bytes : List UInt8} {logs : Logs α}
    (result : s.logs.takeSnapshot cmdIndex bytes = some logs)
    (committed : logs.offset ≤ s.logs.lci + 1) :
    (⟨logs.stored, s.sent⟩ : Applying α).Ok ∧ s.logs.Keeps logs.stored ∧
      Sends s ⟨logs.stored, s.sent⟩ := by
  have commit := ok.spans.commit
  have last := ok.spans.last
  have offset := ok.offset
  obtain ⟨kept, entry, term, passed, found, -, -, -, rfl⟩ := Logs.takeSnapshot_spec result
  have inBounds : kept < s.logs.entries.length := (List.getElem?_eq_some_iff.mp found).1
  have lliEq : int32 s.logs.lli = s.logs.lli := int32_eq ok.lli
  dsimp only at committed
  simp only [Logs.stored, ← ok.int32_lci, lliEq]
  refine ⟨?_, ⟨by simp only; omega, Int.le_refl _, fun idx below notCompacted => ?_⟩,
    .nothing rfl rfl⟩
  · exact {
      spans := {
        last := by simp only [List.length_drop]; omega
        commit := by simp only [List.length_drop]; omega
        base := by simp
        fresh := by simp }
      offset := by simp only; omega
      lci := ok.lci
      lli := ok.lli
      sent := ok.sent }
  · dsimp only at notCompacted
    simp only [Logs.entryAt, index?]
    rw [if_pos (by omega), if_pos (by omega), List.getElem?_drop]
    congr 1
    omega

theorem Ok.followerInstallSnapshot (ok : s.Ok) {snapshot : Snapshot α}
    (above : s.logs.lci < snapshot.lastIncludeIndex)
    (narrow : snapshot.lastIncludeIndex < 2 ^ 31) :
    (⟨(s.logs.followerInstallSnapshot snapshot).stored, s.sent ++ [.snapshot snapshot]⟩ :
        Applying α).Ok ∧
      s.logs.Keeps (s.logs.followerInstallSnapshot snapshot).stored ∧
      Sends s ⟨(s.logs.followerInstallSnapshot snapshot).stored,
        s.sent ++ [.snapshot snapshot]⟩ := by
  have commit := ok.spans.commit
  have offset := ok.offset
  have indexEq : int32 snapshot.lastIncludeIndex = snapshot.lastIncludeIndex :=
    int32_eq (by omega)
  simp only [Logs.followerInstallSnapshot, Logs.stored, indexEq]
  refine ⟨?_, ⟨by simp only; omega, by simp only; omega, fun idx below notCompacted => ?_⟩,
    .snapshot snapshot rfl rfl⟩
  · exact {
      spans := {
        last := by simp only [List.length_nil]; omega
        commit := by simp only [List.length_nil]; omega
        base := by simp
        fresh := by simp }
      offset := by simp only; omega
      lci := narrow
      lli := by simp only; omega
      sent := by simp [ApplyEntry.lastIndex] }
  · dsimp only at notCompacted
    omega

/-- A legal call does not crash, keeps what is committed and sends what comes next. -/
theorem Ok.step (ok : s.Ok) {op : LogOp α} (legal : s.Legal op) (narrow : Narrow op) :
    ∃ s', Applying.step op s = some s' ∧ s'.Ok ∧ s.logs.Keeps s'.logs ∧ Sends s s' := by
  cases op with
  | leaderAppendEntry et =>
      refine ⟨_, rfl, ?_⟩
      simp only [LogOutcome.stored, Option.toList_none, List.append_nil]
      exact ok.rewrites (.pushEntry ok.spans ok.lli.1 rfl)
  | followerAppendEntries args =>
      obtain ⟨logs, status, written, result⟩ := ok.spans.followerAppendEntries_isSome args
      refine ⟨⟨logs.stored, s.sent⟩, by simp [Applying.step, Logs.perform, result,
        LogOutcome.stored], ?_⟩
      exact ok.rewrites (.followerAppendEntries ok.spans ok.offset ok.lli.1 result)
  | updateCommit leaderCommit =>
      obtain ⟨logs, item, result⟩ := ok.spans.updateCommit_isSome leaderCommit
      refine ⟨⟨logs.stored, s.sent ++ item.toList⟩, by simp [Applying.step, Logs.perform, result,
        LogOutcome.stored], ?_⟩
      cases item with
      | none =>
          rw [Logs.updateCommit_none result, Option.toList_none, List.append_nil]
          exact ok.rewrites (.refl ok.spans ok.lli.1)
      | some item => exact ok.updateCommit result
  | takeSnapshot cmdIndex bytes =>
      obtain ⟨logs, result, committed⟩ := ok.spans.takeSnapshot_committed legal bytes
      refine ⟨⟨logs.stored, s.sent⟩, by simp [Applying.step, Logs.perform, result,
        LogOutcome.stored], ?_⟩
      exact ok.takeSnapshot result committed
  | followerInstallSnapshot snapshot =>
      exact ⟨_, rfl, ok.followerInstallSnapshot legal narrow⟩

/-- The calls of a run are legal, and what they install ends below `2^31`. -/
def Allowed (s : Applying α) (op : LogOp α) : Prop :=
  s.Legal op ∧ Narrow op

instance (s : Applying α) (op : LogOp α) : Decidable (s.Allowed op) :=
  inferInstanceAs (Decidable (_ ∧ _))

theorem Ok.run (ok : s.Ok) {ops : List (LogOp α)} (run : Run Applying.step Allowed s ops s') :
    s'.Ok ∧ s.logs.Keeps s'.logs := by
  induction run with
  | start => exact ⟨ok, .refl _⟩
  | next _ allowed taken ih =>
      obtain ⟨ok, keeps⟩ := ih
      obtain ⟨next, isNext, ok', keeps', -⟩ := ok.step allowed.1 allowed.2
      cases isNext.symm.trans taken
      exact ⟨ok', keeps.trans keeps'⟩

end Applying

/-- In every run from a new log: everything up to the commit index has been sent; the next
call does not crash and sends nothing, the batch that follows, or the snapshot it installs;
and along every continuation the commit index does not decrease and a committed entry does
not change until it is compacted. -/
theorem applied_stream {ops : List (LogOp α)} {s : Applying α}
    (run : Run Applying.step Applying.Allowed .init ops s) :
    lastSent s.sent = s.logs.lci ∧
      (∀ op, s.Allowed op → ∃ s', Applying.step op s = some s' ∧ s.Sends s') ∧
      ∀ more s', Run Applying.step Applying.Allowed s more s' → s.logs.lci ≤ s'.logs.lci ∧
        ∀ idx ≤ s.logs.lci, s'.logs.offset ≤ idx → s'.logs.entryAt idx = s.logs.entryAt idx := by
  obtain ⟨ok, -⟩ := Applying.init_ok.run run
  refine ⟨ok.sent, fun op allowed => ?_, fun more s' continued => ?_⟩
  · obtain ⟨s', taken, -, -, sends⟩ := ok.step allowed.1 allowed.2
    exact ⟨s', taken, sends⟩
  · obtain ⟨-, keeps⟩ := ok.run continued
    exact ⟨keeps.commit, keeps.entries⟩

/-- A leader commits a no-op and a command, compacts them and is overtaken by a snapshot. -/
def compactedThenInstalled : List (LogOp Nat) :=
  [.leaderAppendEntry ⟨-1, 1, none⟩, .leaderAppendEntry ⟨0, 1, some 7⟩, .updateCommit 1,
    .takeSnapshot 1 [1], .followerInstallSnapshot ⟨[2], 4, 2, 4, 1, []⟩]

theorem applied_stream_compactedThenInstalled :
    ∃ s, Run Applying.step Applying.Allowed .init compactedThenInstalled s ∧
      s.sent = [.log [⟨-1, 1, none⟩, ⟨1, 1, some 7⟩] 1, .snapshot ⟨[2], 4, 2, 4, 1, []⟩] ∧
      lastSent s.sent = s.logs.lci := by
  obtain ⟨s, run, sent⟩ : ∃ s,
      Run Applying.step Applying.Allowed .init compactedThenInstalled s ∧
      s.sent = [.log [⟨-1, 1, none⟩, ⟨1, 1, some 7⟩] 1, .snapshot ⟨[2], 4, 2, 4, 1, []⟩] :=
    Run.exists_of_runSteps (by decide)
  exact ⟨s, run, sent, (applied_stream run).1⟩

/-- A snapshot that ends at `2^31` takes the commit index of a new log from `-1` to
`-2^31`. -/
theorem commit_index_wraps : ∃ (snapshot : Snapshot Nat) (s : Applying Nat),
    Applying.init.Legal (.followerInstallSnapshot snapshot) ∧
      Applying.step (.followerInstallSnapshot snapshot) .init = some s ∧
      s.logs.lci < (Applying.init : Applying Nat).logs.lci :=
  ⟨⟨[1], 2 ^ 31, 1, 1, 0, []⟩, _, by decide, rfl, by decide⟩

end GoLab.Raft
