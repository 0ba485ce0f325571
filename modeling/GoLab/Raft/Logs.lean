import GoLab.Lib.Slice

/-!
# The replicated log (`log.go`)

`Logs` is the log of one server: the entries that have not been compacted, the
cursors into it, and the snapshot that stands for the compacted prefix.  All
positions are Go `int`s, so the initial value `-1` of a cursor is a value of the
type; the 32-bit atomics are taken as unbounded.

An operation that can fail an assertion or index outside `entries` returns an
`Option`, with `none` for the crash of the process.  `rf.fatal` is not such a
failure: with `logEnabled = false` it does nothing and the caller goes on.

The locks of `Logs` are not part of its value.  The two channels `applier` and
`applierDone` belong to the server.
-/

namespace GoLab.Raft

/-- `NOOP_INDEX`. -/
def noopIndex : Int := -1

/-- One log entry.  `content` is Go's `interface{}`, with `none` for `nil`. -/
structure LogEntry (α : Type) where
  commandIndex : Int
  term : Int
  content : Option α
  deriving DecidableEq, Repr

/-- Whether an entry is the no-op a leader appends when it is activated. -/
def LogEntry.isNoop {α : Type} (entry : LogEntry α) : Bool :=
  entry.commandIndex == noopIndex

/-- A position of the log and the term of the entry there. -/
structure LogInfo where
  index : Int
  term : Int
  deriving DecidableEq, Repr

/-- A compacted prefix of the log.

`compacted` is a history variable: the entries the snapshot was taken of.  No
operation reads it. -/
structure Snapshot (α : Type) where
  snapshot : List UInt8
  lastIncludeIndex : Int
  lastIncludeTerm : Int
  lastIncludeCmdIndex : Int
  noopCount : Int
  compacted : List (LogEntry α)
  deriving DecidableEq, Repr

/-- What is sent to the applier goroutine. -/
inductive ApplyEntry (α : Type) where
  | log (applyEntries : List (LogEntry α)) (lai : Int)
  | snapshot (snapshot : Snapshot α)
  deriving DecidableEq, Repr

/-- The payload of an `AppendEntries` request that is not a snapshot. -/
structure SendEntries (α : Type) where
  entries : List (LogEntry α)
  prevLogInfo : LogInfo
  deriving DecidableEq, Repr

/-- The answer of a server to an `AppendEntries` request. -/
inductive EntryStatus where
  | entryDefault
  | entryHold
  | entryStale
  | entryMatch
  | entryUnmatch
  deriving DecidableEq, Repr

structure Logs (α : Type) where
  entries : List (LogEntry α)
  lci : Int
  lli : Int
  lai : Int
  noopCount : Int
  offset : Int
  snapshot : Option (Snapshot α)
  deriving DecidableEq, Repr

/-- The number of no-op entries of a list. -/
def noops {α : Type} (entries : List (LogEntry α)) : Int :=
  (entries.countP LogEntry.isNoop : Nat)

namespace Logs

variable {α : Type}

/-- The log `newLogs` builds when nothing was persisted. -/
def empty : Logs α where
  entries := []
  lci := -1
  lli := -1
  lai := -1
  noopCount := 0
  offset := 0
  snapshot := none

/-- The entries the current snapshot was taken of. -/
def compacted (logs : Logs α) : List (LogEntry α) :=
  (logs.snapshot.map Snapshot.compacted).getD []

/-- The whole log: the compacted prefix followed by `entries`. -/
def full (logs : Logs α) : List (LogEntry α) :=
  logs.compacted ++ logs.entries

/-- The entry at a log index, unless it has been compacted. -/
def entryAt (logs : Logs α) (idx : Int) : Option (LogEntry α) :=
  index? logs.entries (idx - logs.offset)

/-- `updateCommit`: the new log and the batch sent to the applier, if any. -/
def updateCommit (logs : Logs α) (leaderCommit : Int) :
    Option (Logs α × Option (ApplyEntry α)) :=
  if leaderCommit ≤ logs.lci then
    some (logs, none)
  else
    let newCommit := min leaderCommit logs.lli
    if newCommit > logs.lci then do
      let batch ← slice? logs.entries (logs.lci - logs.offset + 1)
        (newCommit - logs.offset + 1)
      return ({ logs with lci := newCommit }, some (.log batch newCommit))
    else
      some (logs, none)

/-- `tryIndexLogTerm`: `(0, false)` when the index is not in the log. -/
def tryIndexLogTerm (logs : Logs α) (idx : Int) : Option (Int × Bool) :=
  match logs.snapshot with
  | some snapshot =>
      if idx = snapshot.lastIncludeIndex then
        some (snapshot.lastIncludeTerm, true)
      else if idx < logs.offset ∨ idx > logs.lli then
        some (0, false)
      else do
        let entry ← index? logs.entries (idx - logs.offset)
        return (entry.term, true)
  | none =>
      if idx < logs.offset ∨ idx > logs.lli then
        some (0, false)
      else do
        let entry ← index? logs.entries (idx - logs.offset)
        return (entry.term, true)

/-- `indexLogTermNoLock`; below the snapshot the call runs into `assert(false)`. -/
def indexLogTermNoLock (logs : Logs α) (idx : Int) : Option Int :=
  if idx < 0 ∨ idx > logs.lli then
    some (-1)
  else
    match logs.snapshot with
    | some snapshot =>
        if idx < snapshot.lastIncludeIndex then
          none
        else if idx = snapshot.lastIncludeIndex then
          some snapshot.lastIncludeTerm
        else
          (index? logs.entries (idx - logs.offset)).map LogEntry.term
    | none => (index? logs.entries (idx - logs.offset)).map LogEntry.term

/-- `indexLogTerm` differs from `indexLogTermNoLock` in the read lock only. -/
def indexLogTerm (logs : Logs α) (idx : Int) : Option Int :=
  logs.indexLogTermNoLock idx

/-- `pushEntry`: the new log and the command index of the entry. -/
def pushEntry (logs : Logs α) (et : LogEntry α) : Logs α × Int :=
  let newLLI := logs.lli + 1
  if et.commandIndex = noopIndex then
    ({ logs with
        noopCount := logs.noopCount + 1
        entries := logs.entries ++ [et]
        lli := newLLI }, et.commandIndex)
  else
    let et := { et with commandIndex := newLLI - logs.noopCount + 1 }
    ({ logs with entries := logs.entries ++ [et], lli := newLLI }, et.commandIndex)

def pushEntries (logs : Logs α) (ets : List (LogEntry α)) : Logs α :=
  let entries := logs.entries ++ ets
  { logs with
    noopCount := logs.noopCount + noops ets
    entries
    lli := entries.length - 1 + logs.offset }

/-- `removeAfter`: the entry at `idx` stays. -/
def removeAfter (logs : Logs α) (idx : Int) : Option (Logs α) := do
  let removed ← slice? logs.entries (idx + 1 - logs.offset) logs.entries.length
  let entries ← slice? logs.entries 0 (idx + 1 - logs.offset)
  return { logs with
    noopCount := logs.noopCount - noops removed
    entries
    lli := entries.length - 1 + logs.offset }

/-- The condition of `followerAppendEntries` on the entry before the new ones. -/
def matchesPrev (logs : Logs α) (prev : LogInfo) : Option Bool :=
  if prev.index < 0 then some true
  else (logs.indexLogTermNoLock prev.index).map (· == prev.term)

/-- The branch of `followerAppendEntries` that writes: cut the log if it is
longer, then append. -/
def replaceAfter (logs : Logs α) (idx : Int) (ets : List (LogEntry α)) : Option (Logs α) :=
  if idx < logs.lli then (logs.removeAfter idx).map fun kept => kept.pushEntries ets
  else some (logs.pushEntries ets)

/-- `followerAppendEntries`: the new log, the answer, and whether the branch
that ends with `persistState` was taken. -/
def followerAppendEntries (logs : Logs α) (args : SendEntries α) :
    Option (Logs α × EntryStatus × Bool) :=
  let prev := args.prevLogInfo
  let ets := args.entries
  if prev.index < logs.lci then
    some (logs, .entryMatch, false)
  else if prev.index < -1 then
    some (logs, .entryUnmatch, false)
  else if prev.index > logs.lli then
    some (logs, .entryUnmatch, false)
  else do
    let matched ← logs.matchesPrev prev
    if matched then
      if ets.length > 0 then
        let logs ← logs.replaceAfter prev.index ets
        return (logs, .entryMatch, true)
      else
        return (logs, .entryMatch, false)
    else
      return (logs, .entryUnmatch, false)

/-- The memory writes of `followerInstallSnapshot`; the item for the applier and
the call of `persist` follow in the processor. -/
def followerInstallSnapshot (logs : Logs α) (snapshot : Snapshot α) : Logs α :=
  { logs with
    snapshot := some snapshot
    entries := []
    offset := snapshot.lastIncludeIndex + 1
    noopCount := snapshot.noopCount
    lli := snapshot.lastIncludeIndex
    lci := snapshot.lastIncludeIndex }

/-- `entriesAfter`: either a snapshot or the entries from `idx` on. -/
def entriesAfter (logs : Logs α) (idx : Int) :
    Option (Option (Snapshot α) × Option (SendEntries α)) :=
  if idx < logs.offset then
    some (logs.snapshot, none)
  else do
    let entries ← slice? logs.entries (idx - logs.offset) logs.entries.length
    let term ← logs.indexLogTerm (idx - 1)
    return (none, some { entries, prevLogInfo := ⟨idx - 1, term⟩ })

/-- The search loop of `takeSnapshot`: the position of the command in `entries`,
and the no-ops passed on the way. -/
def searchCommand (cmdIndex : Int) :
    List (LogEntry α) → (i noopCount : Int) → Option Int × Int
  | [], _, noopCount => (none, noopCount)
  | entry :: rest, i, noopCount =>
      if entry.commandIndex = noopIndex then
        searchCommand cmdIndex rest (i + 1) (noopCount + 1)
      else if entry.commandIndex = cmdIndex then
        (some i, noopCount)
      else
        searchCommand cmdIndex rest (i + 1) noopCount

/-- The memory writes of `takeSnapshot`; a search that finds nothing leaves
`logIndex` at its initial value `0`. -/
def takeSnapshot (logs : Logs α) (cmdIndex : Int) (snapshot : List UInt8) :
    Option (Logs α) := do
  let (found, noopCount) := searchCommand cmdIndex logs.entries 0 0
  let logIndex := (found.map (· + logs.offset)).getD 0
  guard (logIndex < logs.entries.length + logs.offset)
  let entry ← index? logs.entries (logIndex - logs.offset)
  guard (entry.commandIndex = cmdIndex)
  let lastIncludeTerm ← logs.indexLogTermNoLock logIndex
  let entries ← slice? logs.entries (logIndex - logs.offset + 1) logs.entries.length
  let compactedNow ← slice? logs.entries 0 (logIndex - logs.offset + 1)
  return { logs with
    snapshot := some {
      snapshot
      lastIncludeIndex := logIndex
      lastIncludeTerm
      lastIncludeCmdIndex := cmdIndex
      noopCount := noopCount + ((logs.snapshot.map Snapshot.noopCount).getD 0)
      compacted := logs.compacted ++ compactedNow }
    entries
    offset := logIndex + 1
    lai := logIndex }

/-- `lastLogInfo`. -/
def lastLogInfo (logs : Logs α) : Option LogInfo :=
  if logs.entries.length = 0 then
    match logs.snapshot with
    | none => some ⟨-1, 0⟩
    | some snapshot => some ⟨snapshot.lastIncludeIndex, snapshot.lastIncludeTerm⟩
  else do
    let entry ← index? logs.entries (logs.lli - logs.offset)
    return ⟨logs.lli, entry.term⟩

/-- `atLeastUpToDate`: whether a log that ends at `lg` is at least as up to date
as this one. -/
def atLeastUpToDate (logs : Logs α) (lg : LogInfo) : Option Bool := do
  let myLast ← logs.lastLogInfo
  if myLast.term = lg.term then
    return decide (myLast.index ≤ lg.index)
  else
    return decide (myLast.term < lg.term)

end Logs

end GoLab.Raft
