import Mathlib.Algebra.Group.Nat.Defs
import Mathlib.Algebra.Group.Int.Defs
import GoLab.Raft.Cursors

/-!
# The operations of the log as calls

A call of an exported operation of `Logs` leaves a log, returns a value and may send
one item to the applier.  The four atomics of `Logs` have 32 bits: what a call stores
there is read back through `int32`.

`Logs.Spans` is the part of the representation that the slice expressions rely on.  It
asks for no more than that the cursors point into the log, so it also holds where a
32-bit cursor has wrapped around.
-/

namespace GoLab.Raft

variable {α : Type}

/-! ## 32-bit cursors -/

/-- What an `atomic.Int32` holds after `Store(int32(x))`. -/
def int32 (x : Int) : Int := x.bmod (2 ^ 32)

theorem int32_eq {x : Int} (inRange : -2 ^ 31 ≤ x ∧ x < 2 ^ 31) : int32 x = x :=
  Int.bmod_eq_of_le (by omega) (by omega)

theorem int32_le {x : Int} (atLeast : -2 ^ 31 ≤ x) : int32 x ≤ x := by
  unfold int32 Int.bmod
  dsimp only
  split <;> omega

theorem int32_range (x : Int) : -2 ^ 31 ≤ int32 x ∧ int32 x < 2 ^ 31 := by
  unfold int32 Int.bmod
  dsimp only
  split <;> omega

/-- The log with its atomics as they are read back. -/
def Logs.stored (logs : Logs α) : Logs α :=
  { logs with
    lci := int32 logs.lci
    lli := int32 logs.lli
    lai := int32 logs.lai
    noopCount := int32 logs.noopCount }

/-! ## Calls -/

inductive LogOp (α : Type) where
  | leaderAppendEntry (et : LogEntry α)
  | followerAppendEntries (args : SendEntries α)
  | updateCommit (leaderCommit : Int)
  | takeSnapshot (cmdIndex : Int) (snapshot : List UInt8)
  | followerInstallSnapshot (snapshot : Snapshot α)
  deriving DecidableEq, Repr

/-- What a call returns. -/
inductive LogReply where
  | appended (lli commandIndex : Int)
  | status (status : EntryStatus)
  | done
  deriving DecidableEq, Repr

/-- The log a call leaves, the value it returns and the item it sends to the applier. -/
structure LogOutcome (α : Type) where
  logs : Logs α
  reply : LogReply
  item : Option (ApplyEntry α)
  deriving DecidableEq, Repr

/-- A call with cursors of unbounded width. -/
def Logs.perform (logs : Logs α) : LogOp α → Option (LogOutcome α)
  | .leaderAppendEntry et =>
      let (logs, commandIndex) := logs.pushEntry et
      some ⟨logs, .appended logs.lli commandIndex, none⟩
  | .followerAppendEntries args => do
      let (logs, status, _) ← logs.followerAppendEntries args
      return ⟨logs, .status status, none⟩
  | .updateCommit leaderCommit => do
      let (logs, item) ← logs.updateCommit leaderCommit
      return ⟨logs, .done, item⟩
  | .takeSnapshot cmdIndex snapshot => do
      let logs ← logs.takeSnapshot cmdIndex snapshot
      return ⟨logs, .done, none⟩
  | .followerInstallSnapshot snapshot =>
      some ⟨logs.followerInstallSnapshot snapshot, .done, some (.snapshot snapshot)⟩

/-- A call with 32-bit cursors.  No operation reads an atomic it has written, so it makes
no difference that they are narrowed when it is over; `leaderAppendEntry` returns the
`LLI` it reads back. -/
def LogOutcome.stored (outcome : LogOutcome α) : LogOutcome α where
  logs := outcome.logs.stored
  reply :=
    match outcome.reply with
    | .appended lli commandIndex => .appended (int32 lli) commandIndex
    | reply => reply
  item := outcome.item

namespace Logs

variable {logs logs' : Logs α}

/-- The last index points into the log, which starts behind the snapshot. -/
structure Anchored (logs : Logs α) : Prop where
  last : logs.lli < logs.offset + logs.entries.length
  base : ∀ snapshot ∈ logs.snapshot, logs.offset = snapshot.lastIncludeIndex + 1
  fresh : logs.snapshot = none → logs.offset = 0

/-- The cursors point into the log. -/
structure Spans (logs : Logs α) : Prop extends logs.Anchored where
  commit : logs.offset ≤ logs.lci + 1 ∧ logs.lci < logs.offset + logs.entries.length

theorem Ok.anchored (ok : logs.Ok) : logs.Anchored where
  last := by
    have last := ok.last
    omega
  base := ok.base
  fresh isNone := (ok.fresh isNone).1

/-! ## Calls that do not crash -/

theorem Spans.updateCommit_isSome (spans : logs.Spans) (leaderCommit : Int) :
    ∃ logs' item, logs.updateCommit leaderCommit = some (logs', item) := by
  have last := spans.last
  have commit := spans.commit
  unfold updateCommit
  split
  case isTrue => exact ⟨logs, none, rfl⟩
  dsimp only
  split
  case isTrue larger =>
    obtain ⟨batch, window⟩ : ∃ batch, slice? logs.entries (logs.lci - logs.offset + 1)
        (min leaderCommit logs.lli - logs.offset + 1) = some batch := slice?_isSome (by omega)
    rw [window]
    exact ⟨_, _, rfl⟩
  case isFalse => exact ⟨logs, none, rfl⟩

theorem Anchored.indexLogTermNoLock_isSome (anchored : logs.Anchored) (idx : Int)
    (notCompacted : logs.offset ≤ idx + 1) : ∃ term, logs.indexLogTermNoLock idx = some term := by
  have last := anchored.last
  have entry (above : logs.offset ≤ idx) (inside : idx ≤ logs.lli) :
      ∃ term, (index? logs.entries (idx - logs.offset)).map LogEntry.term = some term := by
    obtain ⟨entry, found⟩ : ∃ entry, index? logs.entries (idx - logs.offset) = some entry :=
      index?_isSome (by omega)
    exact ⟨entry.term, by rw [found, Option.map_some]⟩
  unfold indexLogTermNoLock
  split
  case isTrue => exact ⟨_, rfl⟩
  case isFalse inside =>
    cases isSnapshot : logs.snapshot with
    | none =>
        have fresh := anchored.fresh isSnapshot
        exact entry (by omega) (by omega)
    | some snapshot =>
        have base := anchored.base snapshot isSnapshot
        dsimp only
        rw [if_neg (by omega)]
        split
        case isTrue => exact ⟨_, rfl⟩
        case isFalse => exact entry (by omega) (by omega)

theorem Anchored.tryIndexLogTerm_isSome (anchored : logs.Anchored) (idx : Int) :
    ∃ term, logs.tryIndexLogTerm idx = some term := by
  have last := anchored.last
  have entry (inside : ¬(idx < logs.offset ∨ idx > logs.lli)) : ∃ term, (do
      let entry ← index? logs.entries (idx - logs.offset)
      return (entry.term, true)) = some term := by
    obtain ⟨entry, found⟩ : ∃ entry, index? logs.entries (idx - logs.offset) = some entry :=
      index?_isSome (by omega)
    exact ⟨(entry.term, true), by rw [found]; rfl⟩
  unfold tryIndexLogTerm
  split
  case h_1 =>
    split
    case isTrue => exact ⟨_, rfl⟩
    split
    case isTrue => exact ⟨_, rfl⟩
    case isFalse inside => exact entry inside
  case h_2 =>
    split
    case isTrue => exact ⟨_, rfl⟩
    case isFalse inside => exact entry inside

theorem removeAfter_isSome (logs : Logs α) (idx : Int)
    (inBounds : logs.offset ≤ idx + 1 ∧ idx < logs.offset + logs.entries.length) :
    ∃ kept, logs.removeAfter idx = some kept := by
  obtain ⟨removed, isRemoved⟩ : ∃ removed, slice? logs.entries (idx + 1 - logs.offset)
      logs.entries.length = some removed := slice?_isSome (by omega)
  obtain ⟨entries, isEntries⟩ : ∃ entries, slice? logs.entries 0 (idx + 1 - logs.offset) =
      some entries := slice?_isSome (by omega)
  simp [removeAfter, isRemoved, isEntries]

theorem replaceAfter_isSome (logs : Logs α) (idx : Int) (ets : List (LogEntry α))
    (inBounds : logs.offset ≤ idx + 1 ∧ logs.lli ≤ logs.offset + logs.entries.length) :
    ∃ replaced, logs.replaceAfter idx ets = some replaced := by
  unfold replaceAfter
  split
  case isTrue =>
    obtain ⟨kept, removed⟩ := removeAfter_isSome logs idx (by omega)
    exact ⟨_, by rw [removed, Option.map_some]⟩
  case isFalse => exact ⟨_, rfl⟩

theorem Spans.followerAppendEntries_isSome (spans : logs.Spans) (args : SendEntries α) :
    ∃ logs' status written, logs.followerAppendEntries args = some (logs', status, written) := by
  have last := spans.last
  have commit := spans.commit
  unfold followerAppendEntries
  dsimp only
  split
  case isTrue => exact ⟨_, _, _, rfl⟩
  split
  case isTrue => exact ⟨_, _, _, rfl⟩
  split
  case isTrue => exact ⟨_, _, _, rfl⟩
  case isFalse notBelow notSmall notLarge =>
    obtain ⟨matched, isMatched⟩ : ∃ matched, logs.matchesPrev args.prevLogInfo = some matched := by
      unfold matchesPrev
      split
      case isTrue => exact ⟨_, rfl⟩
      case isFalse =>
        obtain ⟨term, isTerm⟩ :=
          spans.toAnchored.indexLogTermNoLock_isSome args.prevLogInfo.index (by omega)
        exact ⟨_, by rw [isTerm, Option.map_some]⟩
    obtain ⟨replaced, isReplaced⟩ :=
      replaceAfter_isSome logs args.prevLogInfo.index args.entries (by omega)
    simp only [isMatched, isReplaced, Option.bind_eq_bind, Option.bind_some]
    split
    case isTrue =>
      split <;> exact ⟨_, _, _, rfl⟩
    case isFalse => exact ⟨_, _, _, rfl⟩

variable {cmdIndex : Int} {entry : LogEntry α}

/-- The search finds the first command with the index. -/
theorem searchCommand_of_mem {entries : List (LogEntry α)} {k : Nat}
    (found : entries[k]? = some entry) (isCommand : entry.commandIndex = cmdIndex)
    (command : cmdIndex ≠ noopIndex) (i passed : Int) :
    ∃ (place : Nat) (first : LogEntry α) (noopCount : Int), place ≤ k ∧
      entries[place]? = some first ∧ first.commandIndex = cmdIndex ∧
      searchCommand cmdIndex entries i passed = (some (i + place), noopCount) := by
  induction entries generalizing k i passed with
  | nil => simp at found
  | cons head rest ih =>
      unfold searchCommand
      have behind (different : head.commandIndex ≠ cmdIndex) (passed : Int) :
          ∃ (place : Nat) (first : LogEntry α) (noopCount : Int), place ≤ k ∧
            (head :: rest)[place]? = some first ∧ first.commandIndex = cmdIndex ∧
            searchCommand cmdIndex rest (i + 1) passed = (some (i + place), noopCount) := by
        cases k with
        | zero =>
            cases found
            exact (different isCommand).elim
        | succ k =>
            obtain ⟨place, first, noopCount, atMost, isFirst, index, searched⟩ :=
              ih found (i + 1) passed
            refine ⟨place + 1, first, noopCount, by omega, isFirst, index, ?_⟩
            rw [searched]
            congr 2
            omega
      split
      case isTrue noop => exact behind (fun same => command (same ▸ noop)) _
      split
      case isTrue isHead => exact ⟨0, head, passed, Nat.zero_le _, rfl, isHead, by simp⟩
      case isFalse different => exact behind different passed

/-- A search that ends at an entry of the command. -/
theorem Anchored.takeSnapshot_at (anchored : logs.Anchored) {cmdIndex noopCount : Int}
    {found : Option Int} {place : Nat}
    (searched : searchCommand cmdIndex logs.entries 0 0 = (found, noopCount))
    (logIndex : (found.map (· + logs.offset)).getD 0 = place + logs.offset)
    (isEntry : logs.entries[place]? = some entry) (isCommand : entry.commandIndex = cmdIndex)
    (bytes : List UInt8) :
    ∃ logs', logs.takeSnapshot cmdIndex bytes = some logs' ∧
      logs'.offset = place + logs.offset + 1 := by
  have inBounds : place < logs.entries.length := (List.getElem?_eq_some_iff.mp isEntry).1
  have isEntry : index? logs.entries place = some entry := by
    simpa [index?_eq_some] using isEntry
  obtain ⟨term, isTerm⟩ := anchored.indexLogTermNoLock_isSome (place + logs.offset) (by omega)
  obtain ⟨rest, isRest⟩ : ∃ rest, slice? logs.entries (place + 1) logs.entries.length =
      some rest := slice?_isSome (by omega)
  obtain ⟨front, isFront⟩ : ∃ front, slice? logs.entries 0 (place + 1) = some front :=
    slice?_isSome (by omega)
  have below : (place : Int) + logs.offset < logs.entries.length + logs.offset := by omega
  simp [takeSnapshot, searched, logIndex, guard, below, isEntry, isCommand, isTerm, isRest,
    isFront]

/-- A command that is still in `entries` can be compacted, up to its first entry. -/
theorem Anchored.takeSnapshot_isSome (anchored : logs.Anchored) {k : Nat}
    (found : logs.entries[k]? = some entry) (isCommand : entry.commandIndex = cmdIndex)
    (command : cmdIndex ≠ noopIndex) (bytes : List UInt8) :
    ∃ logs', logs.takeSnapshot cmdIndex bytes = some logs' ∧
      logs'.offset ≤ logs.offset + k + 1 := by
  obtain ⟨place, first, noopCount, atMost, isFirst, index, searched⟩ :=
    searchCommand_of_mem found isCommand command 0 0
  obtain ⟨logs', taken, offset⟩ :=
    anchored.takeSnapshot_at searched (by simp) isFirst index bytes
  exact ⟨logs', taken, by omega⟩

/-- A command whose entry is in the log, at an index up to the commit index. -/
def HasCommitted (logs : Logs α) (cmdIndex : Int) : Prop :=
  cmdIndex ≠ noopIndex ∧ ∃ entry ∈ logs.entries.take (logs.lci + 1 - logs.offset).toNat,
    entry.commandIndex = cmdIndex

instance (logs : Logs α) (cmdIndex : Int) : Decidable (logs.HasCommitted cmdIndex) :=
  inferInstanceAs (Decidable (_ ∧ _))

theorem HasCommitted.found (committed : logs.HasCommitted cmdIndex) :
    ∃ (k : Nat) (entry : LogEntry α), logs.entries[k]? = some entry ∧
      entry.commandIndex = cmdIndex ∧ logs.offset + k ≤ logs.lci := by
  obtain ⟨-, entry, membership, isCommand⟩ := committed
  obtain ⟨k, found⟩ := List.mem_iff_getElem?.mp membership
  have inside : k < _ := (List.getElem?_eq_some_iff.mp found).1
  rw [List.length_take] at inside
  rw [List.getElem?_take, if_pos (by omega)] at found
  exact ⟨k, entry, found, isCommand, by omega⟩

theorem HasCommitted.of_found {k : Nat} (command : cmdIndex ≠ noopIndex)
    (found : logs.entries[k]? = some entry) (isCommand : entry.commandIndex = cmdIndex)
    (below : logs.offset + k ≤ logs.lci) :
    logs.HasCommitted cmdIndex := by
  refine ⟨command, entry, List.mem_iff_getElem?.mpr ⟨k, ?_⟩, isCommand⟩
  rw [List.getElem?_take, if_pos (by omega), found]

theorem Spans.takeSnapshot_committed (spans : logs.Spans) (committed : logs.HasCommitted cmdIndex)
    (bytes : List UInt8) :
    ∃ logs', logs.takeSnapshot cmdIndex bytes = some logs' ∧ logs'.offset ≤ logs.lci + 1 := by
  obtain ⟨k, entry, found, isCommand, below⟩ := committed.found
  obtain ⟨logs', taken, atMost⟩ :=
    spans.toAnchored.takeSnapshot_isSome found isCommand committed.1 bytes
  exact ⟨logs', taken, by omega⟩

end Logs

end GoLab.Raft
