import GoLab.Raft.Handlers

/-!
# The goroutines beside the processor

The steps of a replicator (`matchIndex` and `start` of `repl.go`), of the
goroutines that ask for votes, of the applier and of the service loop.

A replicator reads `ld.active`, builds a request from the shared term and log,
reads `ld.active` again and enters `appendEntries`.  In there it sends copies of
the request and refreshes `LeaderCommit`, without looking at `ld.active`, until
a reply with `Responsed` is the first one stored in `atom_reply`.
-/

namespace GoLab.Raft

variable {α : Type}

namespace Replicator

/-- `lii` of `matchIndex`. -/
def lii (sv : Server α) : Int :=
  (sv.logs.snapshot.map Snapshot.lastIncludeIndex).getD 0

/-- The end of `matchIndex`. -/
def matched (sv : Server α) (repl : Replicator α) (prevLogIndex : Int) : Replicator α :=
  if sv.leading repl.ld then
    { repl with nextIndex := prevLogIndex + 1, pc := .head }
  else
    { repl with pc := .head }

/-- The probe at `m`; `none` is a crash, and `continue search` when the index has
been compacted. -/
def buildProbe (me : Nat) (sv : Server α) (repl : Replicator α) (l r prevLogIndex : Int) :
    Option (Replicator α) := do
  let m := l + (r - l) / 2
  let (mTerm, ok) ← sv.logs.tryIndexLogTerm m
  if ok then
    let args : AppendEntriesArgs α := {
      id := me
      term := sv.term
      leaderCommit := sv.logs.lci
      entryType := .entryTQuery
      snapshot := none
      sendEntries := some { entries := [], prevLogInfo := ⟨m, mTerm⟩ } }
    return { repl with pc := .probe l r prevLogIndex m ⟨0, args, Slice.nil, none⟩ }
  else
    return { repl with pc := .outer prevLogIndex }

/-- The request of `start`; `none` is a crash. -/
def buildLog (me : Nat) (sv : Server α) (repl : Replicator α) : Option (Replicator α) := do
  let (snapshot, sendEntries) ← sv.logs.entriesAfter repl.nextIndex
  let args : AppendEntriesArgs α := {
    id := me
    term := sv.term
    leaderCommit := sv.logs.lci
    entryType := .entryTLog
    snapshot
    sendEntries }
  let view :=
    if sendEntries.isSome then
      sv.slice.dropFirst (repl.nextIndex - sv.logs.offset).toNat
    else
      Slice.nil
  return { repl with pc := .round ⟨0, args, view, none⟩ }

/-- A step of a replicator that does not wait for the network; `none` is a crash.
A call that is started takes the next identity of the server. -/
def advance (me : Nat) (sv : Server α) (repl : Replicator α) : Option (Replicator α) :=
  match repl.pc with
  | .outer prevLogIndex =>
      if sv.leading repl.ld then
        some { repl with pc := .inner (lii sv) sv.logs.lli prevLogIndex }
      else
        some { repl with pc := .finish prevLogIndex }
  | .inner l r prevLogIndex =>
      if sv.leading repl.ld ∧ l ≤ r then
        some { repl with pc := .probeBuild l r prevLogIndex }
      else
        some { repl with pc := .finish prevLogIndex }
  | .probeBuild l r prevLogIndex => buildProbe me sv repl l r prevLogIndex
  | .probe l r prevLogIndex m call =>
      if sv.leading repl.ld then
        some { repl with
          pc := .probing l r prevLogIndex m { call with id := sv.nextId, atomReply := none } }
      else
        some { repl with pc := .finish prevLogIndex }
  | .finish prevLogIndex => some (matched sv repl prevLogIndex)
  | .stepDown => some { repl with pc := .returned }
  | .head =>
      if sv.leading repl.ld then do
        guard (repl.nextIndex ≥ 0)
        return { repl with pc := .tick }
      else
        some { repl with pc := .returned }
  | .tick => buildLog me sv repl
  | .round call =>
      if sv.leading repl.ld then
        some { repl with pc := .sending { call with id := sv.nextId, atomReply := none } }
      else
        some { repl with pc := .returned }
  | .probing .. | .sending _ | .returned => some repl

/-- The event a replicator pushes when the reply of a log request arrives, and
where it goes on. -/
def answered (repl : Replicator α) (call : Call α) (reply : AppendEntriesReply) :
    Replicator α × Option (Event α) :=
  match reply.entryStatus with
  | .entryDefault | .entryHold => ({ repl with pc := .round call }, none)
  | .entryStale => ({ repl with pc := .returned }, some (.staleLeader repl.ld reply.term))
  | .entryUnmatch => ({ repl with pc := .outer (-1) }, none)
  | .entryMatch =>
      match call.args.snapshot, call.args.sendEntries with
      | some snapshot, _ =>
          ({ repl with nextIndex := snapshot.lastIncludeIndex + 1, pc := .head }, none)
      | none, some sendEntries =>
          if sendEntries.entries.length > 0 then
            let stop := repl.nextIndex + sendEntries.entries.length
            ({ repl with nextIndex := stop, pc := .head },
              some (.replConfirm repl.ld repl.peerId repl.nextIndex stop))
          else
            ({ repl with pc := .head }, none)
      | none, none => ({ repl with pc := .head }, none)

/-- Where a replicator goes on when the reply of a probe arrives. -/
def probed (repl : Replicator α) (l r prevLogIndex m : Int) (call : Call α)
    (reply : AppendEntriesReply) : Replicator α :=
  match reply.entryStatus with
  | .entryMatch => { repl with pc := .inner (m + 1) r m }
  | .entryUnmatch => { repl with pc := .inner l (m - 1) prevLogIndex }
  | .entryStale => { repl with pc := .stepDown }
  | .entryHold | .entryDefault => { repl with pc := .probe l r prevLogIndex m call }

/-- A reply for the call under way: the first one is stored for good, and only a
reply with `Responsed` ends the call. -/
def receive (sv : Server α) (repl : Replicator α) (id : Nat) (reply : AppendEntriesReply) :
    Replicator α × Option (Event α) :=
  match repl.pc with
  | .probing l r prevLogIndex m call =>
      if call.id = id ∧ call.atomReply = none then
        if reply.responsed then
          if sv.leading repl.ld then
            (probed repl l r prevLogIndex m call reply, none)
          else
            ({ repl with pc := .returned }, none)
        else
          ({ repl with
              pc := .probing l r prevLogIndex m { call with atomReply := some reply } }, none)
      else
        (repl, none)
  | .sending call =>
      if call.id = id ∧ call.atomReply = none then
        if reply.responsed then
          if sv.leading repl.ld then
            answered repl call reply
          else
            ({ repl with pc := .returned }, none)
        else
          ({ repl with pc := .sending { call with atomReply := some reply } }, none)
      else
        (repl, none)
  | _ => (repl, none)

/-- One copy of the request under way: `Call` encodes `args` anew, so the entries
are read through the slice. -/
def copy (sv : Server α) (call : Call α) : AppendEntriesArgs α :=
  let reread (sendEntries : SendEntries α) : SendEntries α :=
    { sendEntries with entries := call.view.read sv.heap }
  { call.args with sendEntries := call.args.sendEntries.map reread }

/-- The call a replicator is in. -/
def calling (repl : Replicator α) : Option (Call α) :=
  match repl.pc with
  | .probing _ _ _ _ call | .sending call => some call
  | _ => none

/-- `args.LeaderCommit = logs.LCI()` of the retry loop. -/
def refresh (sv : Server α) (repl : Replicator α) : Replicator α :=
  let renew (call : Call α) : Call α :=
    { call with args := { call.args with leaderCommit := sv.logs.lci } }
  match repl.pc with
  | .probing l r prevLogIndex m call =>
      { repl with pc := .probing l r prevLogIndex m (renew call) }
  | .sending call =>
      { repl with pc := .sending (renew call) }
  | _ => repl

end Replicator

namespace Server

/-- The `transRole` of a replicator, which stops whatever role is present. -/
def transRole (sv : Server α) (transFunc : TransFunc) : Option (Server α) :=
  if sv.active then do
    guard (sv.evCh.length < evCap)
    return { sv with active := false, evCh := sv.evCh ++ [.trans (some transFunc)] }
  else
    some sv

/-- The reply to a `RequestVote` reaches the goroutine of peer `src`. -/
def votePolled (sv : Server α) (role src : Nat) (reply : RequestVoteReply) :
    Option (Server α) :=
  match sv.role with
  | .candidate cd => do
      guard (sv.leading role ∧ src ∈ cd.polls ∧ reply.responsed)
      let polled : Server α :=
        { sv with role := .candidate { cd with polls := cd.polls.erase src } }
      match reply.voteStatus with
      | .voteGranted => polled.push (.voteGrant role cd.args.term reply.voterID)
      | .voteOther =>
          if reply.term > sv.term then polled.push (.staleCandidate role reply.term)
          else some polled
      | .voteDenial => polled.push (.staleCandidate role sv.term)
      | .voteDefault => some polled
  | _ => none

/-- One step of the applier goroutine.  Its save is one step here; `Saving.step` has the
capture of the state and the write apart. -/
def applierStep (me : Nat) (sv : Server α) : Option (Out α) :=
  match sv.hand with
  | .idle =>
      match sv.applier with
      | [] => none
      | .log entries _ :: rest =>
          some { server := { sv with applier := rest, hand := .log entries } }
      | .snapshot snapshot :: rest =>
          some { server := { sv with applier := rest, hand := .snapshot snapshot } }
  | .log [] => some { server := { sv with hand := .idle } }
  | .log (entry :: rest) =>
      if entry.commandIndex = noopIndex then
        some { server := { sv with hand := .log rest } }
      else do
        guard (sv.service = .ready)
        return {
          server := { sv with
            hand := .log rest
            received := entry.commandIndex :: sv.received }
          obs := [.delivered me (.command entry.commandIndex entry.content)] }
  | .snapshot snapshot => do
      guard (sv.service = .ready)
      return {
        server := { sv with hand := .applied snapshot }
        obs := [.delivered me (.snapshot snapshot.snapshot snapshot.lastIncludeTerm
          snapshot.lastIncludeCmdIndex)] }
  | .applied snapshot =>
      some {
        server := ({ sv with
          hand := .idle
          logs := { sv.logs with lai := snapshot.lastIncludeIndex } } : Server α).persistState
        obs := [.saved me] }

end Server

end GoLab.Raft
