import GoLab.Raft.FullLog

/-!
# What a follower does with a request

`Follower.appendEntries` from the event to the end of its handler: what the log holds
when `ENTRY_MATCH` is answered, how far the commit index gets, and what a snapshot
does to a log that is past it.
-/

namespace GoLab.Raft

variable {α : Type}

/-! ## The end of a handler -/

/-- The processor goes on with its handler until nothing of it is left, with steps of
the other goroutines in between; `obs` is what all of them add to the history. -/
inductive Finishes (cfg : Config) (me : Nat) : Server α → List (Obs α) → Server α → Prop where
  | done {sv : Server α} (idle : sv.todo = []) : Finishes cfg me sv [] sv
  | step {sv sv' : Server α} {net : List (Msg α)} {act : Act α} {out : Out α}
      {obs : List (Obs α)} (isUp : sv.up = true) (busy : sv.todo ≠ [])
      (taken : sv.act cfg me net act = some out) (stays : out.server.up = true)
      (rest : Finishes cfg me out.server obs sv') : Finishes cfg me sv (obs ++ out.obs) sv'

/-- The commit index when the operations of a handler are done. -/
def commitAfter (lli : Int) : List (Op α) → Int → Int
  | [], lci => lci
  | .updateCommit leaderCommit :: rest, lci =>
      commitAfter lli rest (max lci (min leaderCommit lli))
  | _ :: rest, lci => commitAfter lli rest lci

section

variable {cfg : Config} {me : Nat} {net : List (Msg α)} {sv sv' : Server α} {act : Act α}
  {out : Out α} {obs : List (Obs α)}

theorem commitAfter_cons {op : Op α} {rest : List (Op α)} {lli lci : Int}
    (other : ∀ leaderCommit, op ≠ .updateCommit leaderCommit) :
    commitAfter lli (op :: rest) lci = commitAfter lli rest lci := by
  cases op with
  | updateCommit leaderCommit => exact (other leaderCommit rfl).elim
  | _ => rfl

theorem commitAfter_append {todo : List (Op α)} {op : Op α} {lli lci : Int}
    (other : ∀ leaderCommit, op ≠ .updateCommit leaderCommit) :
    commitAfter lli (todo ++ [op]) lci = commitAfter lli todo lci := by
  induction todo generalizing lci with
  | nil => exact commitAfter_cons other
  | cons first rest ih => cases first <;> exact ih

/-- What the steps of a handler after its first do not touch. -/
structure SameLog (sv sv' : Server α) : Prop where
  entries : sv'.logs.entries = sv.logs.entries
  snapshot : sv'.logs.snapshot = sv.logs.snapshot
  offset : sv'.logs.offset = sv.logs.offset
  lli : sv'.logs.lli = sv.logs.lli
  noopCount : sv'.logs.noopCount = sv.logs.noopCount
  commit : commitAfter sv'.logs.lli sv'.todo sv'.logs.lci =
    commitAfter sv.logs.lli sv.todo sv.logs.lci

theorem SameLog.of_eq (logs : sv'.logs = sv.logs) (todo : sv'.todo = sv.todo) : SameLog sv sv' := by
  constructor <;> simp only [logs, todo]

theorem SameLog.trans {sv'' : Server α} (first : SameLog sv sv') (second : SameLog sv' sv'') :
    SameLog sv sv'' where
  entries := second.entries.trans first.entries
  snapshot := second.snapshot.trans first.snapshot
  offset := second.offset.trans first.offset
  lli := second.lli.trans first.lli
  noopCount := second.noopCount.trans first.noopCount
  commit := second.commit.trans first.commit

theorem SameLog.full_eq (same : SameLog sv sv') : sv'.logs.full = sv.logs.full := by
  simp only [Logs.full, Logs.compacted, same.entries, same.snapshot]

theorem Executes.sameLog {op : Op α} {rest : List (Op α)} (next : sv.todo = op :: rest)
    (executes : Executes cfg me { sv with todo := rest } op out) : SameLog sv out.server := by
  have dropped (other : ∀ leaderCommit, op ≠ .updateCommit leaderCommit) {sv' : Server α}
      (logs : sv'.logs = sv.logs) (todo : sv'.todo = rest) : SameLog sv sv' := by
    constructor <;> simp only [logs, todo, next, commitAfter_cons other]
  cases executes with
  | notCommitted result =>
      refine ⟨rfl, rfl, rfl, rfl, rfl, ?_⟩
      rw [next]
      simp only [commitAfter]
      congr 1
      unfold Logs.updateCommit at result
      dsimp only at result
      split at result
      case isTrue => omega
      case isFalse =>
        split at result
        case isTrue =>
          simp only [Option.bind_eq_bind, Option.bind_eq_some_iff] at result
          obtain ⟨batch, -, result⟩ := result
          cases result
        case isFalse => omega
  | committed result =>
      obtain ⟨commit, batch, larger, isCommit, -, rfl, -⟩ := Logs.updateCommit_spec result
      refine ⟨rfl, rfl, rfl, rfl, rfl, ?_⟩
      rw [next]
      simp only [commitAfter]
      dsimp only at larger isCommit
      congr 1
      omega
  | voteGiven | voteDenied =>
      refine ⟨rfl, rfl, rfl, rfl, rfl, ?_⟩
      rw [next, commitAfter_cons (by simp)]
      exact commitAfter_append (by simp)
  | _ => exact dropped nofun rfl rfl

/-- A step inside a handler leaves the log as it is, the commit index apart. -/
theorem Steps.sameLog (steps : Steps cfg me net sv act out) (isUp : sv.up = true)
    (busy : sv.todo ≠ []) (stays : out.server.up = true) : SameLog sv out.server := by
  cases steps with
  | popped _ idle => exact (busy idle).elim
  | executed _ next executes => exact executes.sameLog next
  | applied _ applies =>
      cases applies with
      | snapshotApplied => exact ⟨rfl, rfl, rfl, rfl, rfl, rfl⟩
      | _ => exact .of_eq rfl rfl
  | crashed => cases stays
  | restarted down => simp [isUp] at down
  | _ => exact .of_eq rfl rfl

theorem Finishes.sameLog (finishes : Finishes cfg me sv obs sv') : SameLog sv sv' := by
  induction finishes with
  | done => exact .of_eq rfl rfl
  | step isUp busy taken stays _ ih =>
      exact ((Server.act_steps isUp taken).sameLog isUp busy stays).trans ih

theorem Finishes.idle (finishes : Finishes cfg me sv obs sv') : sv'.todo = [] := by
  induction finishes with
  | done idle => exact idle
  | step _ _ _ _ _ ih => exact ih

/-- The commit index at the end of a handler. -/
theorem Finishes.lci_eq (finishes : Finishes cfg me sv obs sv') :
    sv'.logs.lci = commitAfter sv.logs.lli sv.todo sv.logs.lci := by
  rw [← finishes.sameLog.commit, finishes.idle]
  rfl

end

/-- The processor alone, for at most `fuel` steps. -/
def Server.finish (cfg : Config) (me : Nat) : Nat → Server α → Option (List (Obs α) × Server α)
  | 0, _ => none
  | fuel + 1, sv =>
      if sv.todo.isEmpty then
        some ([], sv)
      else do
        let out ← sv.act cfg me [] .exec
        guard out.server.up
        let (obs, last) ← finish cfg me fuel out.server
        return (obs ++ out.obs, last)

theorem Finishes.of_finish {cfg : Config} {me : Nat} {sv sv' : Server α}
    {obs : List (Obs α)} (fuel : Nat) (isUp : sv.up = true)
    (result : sv.finish cfg me fuel = some (obs, sv')) :
    Finishes cfg me sv obs sv' := by
  induction fuel generalizing sv obs with
  | zero => cases result
  | succ fuel ih =>
      unfold Server.finish at result
      split at result
      case isTrue idle =>
        cases result
        exact .done (List.isEmpty_iff.mp idle)
      case isFalse busy =>
        simp only [Option.bind_eq_bind, Option.bind_eq_some_iff, Option.guard_eq_some'] at result
        obtain ⟨out, taken, -, stays, ⟨later, last⟩, rest, result⟩ := result
        cases result
        exact .step isUp (by simpa using busy) taken stays (ih stays rest)

/-- A request handled from beginning to end, with a check of what came of it. -/
theorem Follower.exists_finishes (cfg : Config) (me : Nat) (sv : Server α) (caller : Caller)
    (args : AppendEntriesArgs α) (fuel : Nat) (p : Out α → Server α → Prop)
    [∀ out sv', Decidable (p out sv')]
    (result : ((Follower.appendEntries cfg me sv caller args).any fun out => out.server.up &&
      (out.server.finish cfg me fuel).any fun done => decide (p out done.2)) = true) :
    ∃ out obs sv', Follower.appendEntries cfg me sv caller args = some out ∧
      Finishes cfg me out.server obs sv' ∧ p out sv' := by
  simp only [Option.any_eq_true, Bool.and_eq_true, decide_eq_true_eq, Prod.exists] at result
  obtain ⟨out, handled, isUp, obs, sv', finished, holds⟩ := result
  exact ⟨out, obs, sv', handled, .of_finish fuel isUp finished, holds⟩

/-! ## What `ENTRY_MATCH` says about the log -/

/-- The entries of a request stand in a log after `prev`. -/
structure SendEntries.Within (sent : SendEntries α) (log : List (LogEntry α)) : Prop where
  prev : -1 ≤ sent.prevLogInfo.index
  entries : ∀ (k : Nat) entry, sent.entries[k]? = some entry →
    log[(sent.prevLogInfo.index + 1 + k).toNat]? = some entry

/-- A log request of an accepted term, with entries of a log that agrees with the
committed part of the follower's. -/
structure LogRequest (sv : Server α) (args : AppendEntriesArgs α) (sent : SendEntries α)
    (whole : List (LogEntry α)) : Prop where
  log : args.entryType = .entryTLog
  plain : args.snapshot = none
  carried : args.sendEntries = some sent
  current : sv.term ≤ args.term
  within : sent.Within whole
  agrees : ∀ (k : Nat) entry, (k : Int) ≤ sv.logs.lci → whole[k]? = some entry →
    sv.logs.full[k]? = some entry

/-- The part of a request past the commit index is in the log. -/
def Logs.HoldsPastCommit (logs : Logs α) (sent : SendEntries α) : Prop :=
  ∀ (k : Nat) entry, sent.entries[k]? = some entry → logs.lci < sent.prevLogInfo.index + 1 + k →
    logs.full[(sent.prevLogInfo.index + 1 + k).toNat]? = some entry

section

variable {cfg : Config} {me : Nat} {sv sv' : Server α} {caller : Caller}
  {args : AppendEntriesArgs α} {sent : SendEntries α} {out : Out α} {obs : List (Obs α)}
  {whole : List (LogEntry α)}

/-- What is written of a request is in the log. -/
theorem Logs.Sound.within_appends {logs logs' : Logs α} {appended : Bool} (sound : logs.Sound)
    (prev : -1 ≤ sent.prevLogInfo.index) (reaches : logs.lci ≤ sent.prevLogInfo.index)
    (appends : logs.Appends sent logs' .entryMatch appended) : sent.Within logs'.full := by
  refine ⟨prev, fun k entry found => ?_⟩
  cases appended with
  | false =>
      cases appends with
      | below below => omega
      | held _ _ _ nothing => simp [nothing] at found
  | true =>
      have full := sound.full_appended appends
      have length := sound.length_eq
      cases appends with
      | appended _ _ inside =>
          rw [full, List.getElem?_append_right (by rw [List.length_take]; omega), ← found]
          congr 1
          simp only [List.length_take]
          omega

/-- Below the commit index a request and the log agree. -/
theorem LogRequest.within_iff (request : LogRequest sv args sent whole) :
    sent.Within sv.logs.full ↔ sv.logs.HoldsPastCommit sent := by
  constructor
  · exact fun within k entry found _ => within.entries k entry found
  · intro past
    refine ⟨request.within.prev, fun k entry found => ?_⟩
    have prev := request.within.prev
    by_cases committed : sent.prevLogInfo.index + 1 + k ≤ sv.logs.lci
    · exact request.agrees _ entry (by omega) (request.within.entries k entry found)
    · exact past k entry found (by omega)

/-- The first part of the handler of a request without a snapshot. -/
theorem Follower.appendEntries_plain (plain : args.snapshot = none)
    (carried : args.sendEntries = some sent)
    (handled : Follower.appendEntries cfg me sv caller args = some out) :
    (args.term < sv.term ∧ out.server.logs = sv.logs ∧ out.server.todo =
      [.replyAppendEntries caller args { entryStatus := .entryStale, term := sv.term }]) ∨
    sv.term ≤ args.term ∧ ∃ status appended,
      sv.logs.followerAppendEntries sent = some (out.server.logs, status, appended) ∧
      out.server.todo = (if appended then [.persistState] else []) ++
        (if status = .entryMatch ∧ args.entryType = .entryTLog then
          [.updateCommit args.leaderCommit] else []) ++
        [.replyAppendEntries caller args { entryStatus := status }] := by
  unfold Follower.appendEntries at handled
  split at handled
  case isTrue stale =>
    cases handled
    exact .inl ⟨stale, rfl, rfl⟩
  case isFalse current =>
    simp only [Server.adoptTerm_eq, Option.bind_eq_bind, Option.bind_some, plain, carried,
      Option.bind_eq_some_iff, Server.raiseTo_logs] at handled
    obtain ⟨⟨logs, status, appended⟩, result, handled⟩ := handled
    cases handled
    exact .inr ⟨by omega, status, appended, result, rfl⟩

/-- The first part of the handler of a request with a snapshot. -/
theorem Follower.appendEntries_snapshot {snapshot : Snapshot α} (current : sv.term ≤ args.term)
    (carried : args.snapshot = some snapshot)
    (handled : Follower.appendEntries cfg me sv caller args = some out) :
    out.server.logs = sv.logs.followerInstallSnapshot snapshot ∧
      out.server.todo = [.apply (.snapshot snapshot), .persist,
        .replyAppendEntries caller args { entryStatus := .entryMatch }] := by
  unfold Follower.appendEntries at handled
  rw [if_neg (by omega)] at handled
  simp only [Server.adoptTerm_eq, Option.bind_eq_bind, Option.bind_some, carried] at handled
  cases handled
  exact ⟨rfl, rfl⟩

/-- The range of indices a replicator confirms for a request it has built. -/
theorem Replicator.answered_buildLog {leader : Server α} {repl built : Replicator α}
    {call : Call α} {reply : AppendEntriesReply} (building : repl.buildLog me leader = some built)
    (round : built.pc = .round call) (carried : call.args.sendEntries = some sent)
    (something : sent.entries ≠ []) (isMatch : reply.entryStatus = .entryMatch) :
    (built.answered call reply).2 =
      some (.replConfirm repl.ld repl.peerId (sent.prevLogInfo.index + 1)
        (sent.prevLogInfo.index + 1 + sent.entries.length)) := by
  simp only [buildLog, Option.bind_eq_bind, Option.bind_eq_some_iff] at building
  obtain ⟨⟨snapshot, sendEntries⟩, payload, building⟩ := building
  cases building
  cases round
  dsimp only at carried
  subst carried
  unfold Logs.entriesAfter at payload
  split at payload
  case isTrue => cases payload
  case isFalse =>
    simp only [Option.bind_eq_bind, Option.bind_eq_some_iff] at payload
    obtain ⟨entries, -, term, -, payload⟩ := payload
    cases payload
    simp [answered, isMatch, List.length_pos_iff.mpr something]

/-- Below the commit index nothing is written. -/
theorem Logs.Appends.eq_of_lt {logs logs' : Logs α} {status : EntryStatus} {appended : Bool}
    (appends : logs.Appends sent logs' status appended)
    (below : sent.prevLogInfo.index < logs.lci) : logs' = logs := by
  cases appends with
  | appended _ notBelow => omega
  | _ => rfl

/-- A follower that answers `ENTRY_MATCH` to a log request holds its entries afterwards if
and only if the request starts at or past the commit index, or what it carries past the
commit index was in the log before.  The leader counts the indices of the entries in any
case. -/
theorem entry_match_iff (sound : sv.logs.Sound) (request : LogRequest sv args sent whole)
    (handled : Follower.appendEntries cfg me sv caller args = some out)
    (answer : .replyAppendEntries caller args { entryStatus := .entryMatch } ∈ out.server.todo)
    (finishes : Finishes cfg me out.server obs sv') :
    (sent.Within sv'.logs.full ↔
      sv.logs.lci ≤ sent.prevLogInfo.index ∨ sv.logs.HoldsPastCommit sent) ∧
    ∀ (id : Nat) (leader : Server α) (repl built : Replicator α) (call : Call α)
      (reply : AppendEntriesReply), repl.buildLog id leader = some built →
      built.pc = .round call → call.args.sendEntries = some sent → sent.entries ≠ [] →
      reply.entryStatus = .entryMatch →
      (built.answered call reply).2 =
        some (.replConfirm repl.ld repl.peerId (sent.prevLogInfo.index + 1)
          (sent.prevLogInfo.index + 1 + sent.entries.length)) := by
  refine ⟨?_, fun _ _ _ _ _ _ => Replicator.answered_buildLog⟩
  rw [finishes.sameLog.full_eq]
  rcases Follower.appendEntries_plain request.plain request.carried handled with
    ⟨stale, -⟩ | ⟨-, status, appended, result, todo⟩
  · have current := request.current
    omega
  · have isMatch : status = .entryMatch := by
      rw [todo] at answer
      simp only [List.mem_append, List.mem_singleton, Op.replyAppendEntries.injEq,
        AppendEntriesReply.mk.injEq, true_and, and_true] at answer
      rcases answer with (early | early) | same
      · split at early <;> simp at early
      · split at early <;> simp at early
      · exact same.symm
    subst isMatch
    have appends := Logs.followerAppendEntries_appends sound.cursors result
    by_cases reaches : sv.logs.lci ≤ sent.prevLogInfo.index
    · exact iff_of_true (sound.within_appends request.within.prev reaches appends) (.inl reaches)
    · rw [appends.eq_of_lt (by omega), request.within_iff]
      exact ⟨.inr, fun past => past.resolve_left reaches⟩

end

/-- A follower of term 1 with an uncompacted log. -/
def followerWith (entries : List (LogEntry Nat)) (lci : Int) : Server Nat :=
  { Server.initial with
    term := 1
    logs := { Logs.empty with
      entries
      lci
      lli := entries.length - 1
      noopCount := noops entries } }

/-- A log request of term 1 by server 1. -/
def logRequest (sent : SendEntries Nat) (leaderCommit : Int) : AppendEntriesArgs Nat where
  id := 1
  term := 1
  leaderCommit := leaderCommit
  entryType := .entryTLog
  snapshot := none
  sendEntries := some sent

def command (commandIndex term : Int) (content : Nat) : LogEntry Nat :=
  ⟨commandIndex, term, some content⟩

theorem followerWith_sound {entries : List (LogEntry Nat)} {lci : Int}
    (inside : lci < entries.length) : (followerWith entries lci).logs.Sound where
  cursors := {
    last := by simp [followerWith, Logs.empty]
    commit := by simp only [followerWith]; omega
    base := by simp [followerWith, Logs.empty]
    fresh := fun _ => ⟨rfl, rfl⟩ }
  snapshot := by simp [followerWith, Logs.empty]
  noopCount := rfl

/-- The first command, and the first two commands from the start of the log. -/
def firstTwo : SendEntries Nat where
  entries := [command 1 1 7, command 2 1 8]
  prevLogInfo := ⟨-1, -1⟩

theorem firstTwo_request {entries : List (LogEntry Nat)} {lci : Int}
    (prefixed : entries <+: firstTwo.entries) (inside : lci < entries.length) :
    LogRequest (followerWith entries lci) (logRequest firstTwo 0) firstTwo firstTwo.entries where
  log := rfl
  plain := rfl
  carried := rfl
  current := Int.le_refl 1
  within := ⟨by decide, fun k entry found => by simpa [firstTwo] using found⟩
  agrees := by
    intro k entry committed found
    dsimp only [followerWith] at committed
    obtain ⟨rest, whole⟩ := prefixed
    rw [← whole, List.getElem?_append_left (by omega)] at found
    simpa [followerWith, Logs.full, Logs.compacted, Logs.empty] using found

theorem entry_match_iff_fresh : ∃ (out : Out Nat) (obs : List (Obs Nat)) (sv' : Server Nat),
    Follower.appendEntries (.doubling 3) 0 (followerWith [] (-1)) ⟨1, 0⟩ (logRequest firstTwo 0) =
      some out ∧
    Finishes (.doubling 3) 0 out.server obs sv' ∧ firstTwo.Within sv'.logs.full := by
  obtain ⟨out, obs, sv', handled, finishes, answer⟩ := Follower.exists_finishes (.doubling 3) 0
    (followerWith [] (-1)) ⟨1, 0⟩ (logRequest firstTwo 0) 6
    (fun out _ => .replyAppendEntries ⟨1, 0⟩ (logRequest firstTwo 0)
      { entryStatus := .entryMatch } ∈ out.server.todo)
    (by decide +kernel)
  have holds := entry_match_iff (followerWith_sound (by decide))
    (firstTwo_request List.nil_prefix (by decide)) handled answer finishes
  exact ⟨out, obs, sv', handled, finishes, holds.1.mpr (.inl (by decide))⟩

/-- A follower that has committed the first command answers `ENTRY_MATCH` to the first two
and does not hold the second. -/
theorem matched_without_entries :
    ∃ (out : Out Nat) (obs : List (Obs Nat)) (sv' : Server Nat),
      (followerWith [command 1 1 7] 0).logs.Sound ∧
      LogRequest (followerWith [command 1 1 7] 0) (logRequest firstTwo 0) firstTwo
        firstTwo.entries ∧
      Follower.appendEntries (.doubling 3) 0 (followerWith [command 1 1 7] 0) ⟨1, 0⟩
        (logRequest firstTwo 0) = some out ∧
      .replyAppendEntries ⟨1, 0⟩ (logRequest firstTwo 0) { entryStatus := .entryMatch } ∈
        out.server.todo ∧
      Finishes (.doubling 3) 0 out.server obs sv' ∧ ¬ firstTwo.Within sv'.logs.full := by
  obtain ⟨out, obs, sv', handled, finishes, answer, full⟩ := Follower.exists_finishes
    (.doubling 3) 0 (followerWith [command 1 1 7] 0) ⟨1, 0⟩ (logRequest firstTwo 0) 6
    (fun out sv' => .replyAppendEntries ⟨1, 0⟩ (logRequest firstTwo 0)
      { entryStatus := .entryMatch } ∈ out.server.todo ∧ sv'.logs.full = [command 1 1 7])
    (by decide +kernel)
  refine ⟨out, obs, sv', followerWith_sound (by decide),
    firstTwo_request (by decide) (by decide), handled, answer, finishes, fun within => ?_⟩
  rw [full] at within
  exact absurd (within.entries 1 _ rfl) (by decide)

/-! ## How far a request commits -/

/-- A request is matched without anything being written: it starts below the commit index,
or it has no entries and the log holds the entry before. -/
def Logs.MatchedInPlace (logs : Logs α) (sent : SendEntries α) : Prop :=
  sent.prevLogInfo.index < logs.lci ∨
    sent.entries = [] ∧ -1 ≤ sent.prevLogInfo.index ∧ sent.prevLogInfo.index ≤ logs.lli ∧
      (sent.prevLogInfo.index < 0 ∨
        logs.indexLogTermNoLock sent.prevLogInfo.index = some sent.prevLogInfo.term)

section

variable {cfg : Config} {me : Nat} {sv sv' : Server α} {caller : Caller}
  {args : AppendEntriesArgs α} {sent : SendEntries α} {out : Out α} {obs : List (Obs α)}

/-- How far `updateCommit` can get after a request. -/
theorem Logs.Appends.lli_cases {logs logs' : Logs α} {status : EntryStatus} {appended : Bool}
    (appends : logs.Appends sent logs' status appended) :
    logs'.lci = logs.lci ∧
      (status = .entryMatch → logs.MatchedInPlace sent ∧ logs'.lli = logs.lli ∨
        ¬ logs.MatchedInPlace sent ∧
          logs'.lli = sent.prevLogInfo.index + sent.entries.length) ∧
      (status ≠ .entryMatch → ¬ logs.MatchedInPlace sent) := by
  cases appends with
  | below below => exact ⟨rfl, fun _ => .inl ⟨.inl below, rfl⟩, by simp⟩
  | unmatched notBelow reason =>
      refine ⟨rfl, nofun, fun _ => ?_⟩
      rintro (below | ⟨-, first, last, matched⟩)
      · omega
      · rcases reason with low | high | ⟨term, nonneg, found, differs⟩
        · omega
        · omega
        · rw [found, Option.some.injEq] at matched
          exact differs (matched.resolve_left (by omega))
  | held _ inside matched nothing =>
      exact ⟨rfl, fun _ => .inl ⟨.inr ⟨nothing, inside.1, inside.2, matched⟩, rfl⟩, by simp⟩
  | appended _ notBelow _ _ something =>
      refine ⟨rfl, fun _ => .inr ⟨?_, rfl⟩, by simp⟩
      rintro (below | ⟨nothing, -⟩)
      · omega
      · exact something nothing

/-- A request without a snapshot commits nothing past its own entries, unless it is a log
request that is matched in place and both the commit index and the end of its entries are
below what the leader has committed and the follower has in its log. -/
theorem commit_within_request_iff (sound : sv.logs.Sound) (plain : args.snapshot = none)
    (carried : args.sendEntries = some sent)
    (handled : Follower.appendEntries cfg me sv caller args = some out)
    (finishes : Finishes cfg me out.server obs sv') :
    sv'.logs.lci ≤ max sv.logs.lci
        (min args.leaderCommit (sent.prevLogInfo.index + sent.entries.length)) ↔
      ¬ (sv.term ≤ args.term ∧ args.entryType = .entryTLog ∧ sv.logs.MatchedInPlace sent ∧
        max sv.logs.lci (sent.prevLogInfo.index + sent.entries.length) <
          min args.leaderCommit sv.logs.lli) := by
  rw [finishes.lci_eq]
  rcases Follower.appendEntries_plain plain carried handled with
    ⟨stale, logs, todo⟩ | ⟨current, status, appended, result, todo⟩
  · simp only [logs, todo, commitAfter]
    omega
  · obtain ⟨lci, onMatch, onUnmatch⟩ :=
      (Logs.followerAppendEntries_appends sound.cursors result).lli_cases
    rw [todo, commitAfter_append (by simp), lci]
    have skipped : ∀ rest, commitAfter out.server.logs.lli
        ((if appended then [.persistState] else []) ++ rest) sv.logs.lci =
        commitAfter out.server.logs.lli (rest : List (Op α)) sv.logs.lci := by
      cases appended <;> simp [commitAfter]
    rw [skipped]
    by_cases commits : status = .entryMatch ∧ args.entryType = .entryTLog
    · rw [if_pos commits]
      simp only [commitAfter, current, commits.2, true_and]
      rcases onMatch commits.1 with ⟨inPlace, lli⟩ | ⟨written, lli⟩
      · simp only [inPlace, true_and, lli]
        omega
      · simp only [written, false_and, not_false_eq_true, iff_true, lli]
        omega
    · simp only [if_neg commits, commitAfter]
      refine iff_of_true (by omega) ?_
      rintro ⟨-, isLog, inPlace, -⟩
      exact onUnmatch (fun isMatch => commits ⟨isMatch, isLog⟩) inPlace

end

/-- An empty log request that matches the first command, of a leader that has committed the
second. -/
def afterFirst : SendEntries Nat where
  entries := []
  prevLogInfo := ⟨0, 1⟩

/-- A follower with the first two commands commits none of them for a leader that has
committed nothing. -/
theorem commit_within_request_iff_fresh :
    ∃ (out : Out Nat) (obs : List (Obs Nat)) (sv' : Server Nat),
      Follower.appendEntries (.doubling 3) 0 (followerWith firstTwo.entries (-1)) ⟨1, 0⟩
        (logRequest afterFirst (-1)) = some out ∧
      Finishes (.doubling 3) 0 out.server obs sv' ∧ sv'.logs.lci ≤ -1 := by
  obtain ⟨out, obs, sv', handled, finishes, -⟩ := Follower.exists_finishes
    (.doubling 3) 0 (followerWith firstTwo.entries (-1)) ⟨1, 0⟩ (logRequest afterFirst (-1)) 6
    (fun _ _ => True) (by decide +kernel)
  have holds := commit_within_request_iff (followerWith_sound (by decide)) rfl rfl handled finishes
  exact ⟨out, obs, sv', handled, finishes, holds.mpr fun bad => absurd bad.2.2.2 (by decide)⟩

/-- The request of a leader of term 2 that has put another entry behind the first command and
committed it. -/
def afterFirstLater : AppendEntriesArgs Nat :=
  { logRequest afterFirst 1 with term := 2 }

/-- A follower commits a command its log has from an older leader, for an empty request
that ends before it. -/
theorem commit_past_request :
    ∃ (out : Out Nat) (obs : List (Obs Nat)) (sv' : Server Nat),
      (followerWith firstTwo.entries (-1)).logs.Sound ∧ afterFirstLater.snapshot = none ∧
      afterFirstLater.sendEntries = some afterFirst ∧
      Follower.appendEntries (.doubling 3) 0 (followerWith firstTwo.entries (-1)) ⟨1, 0⟩
        afterFirstLater = some out ∧
      Finishes (.doubling 3) 0 out.server obs sv' ∧
      ¬ sv'.logs.lci ≤
        max (-1) (min 1 (afterFirst.prevLogInfo.index + afterFirst.entries.length)) := by
  obtain ⟨out, obs, sv', handled, finishes, past⟩ := Follower.exists_finishes
    (.doubling 3) 0 (followerWith firstTwo.entries (-1)) ⟨1, 0⟩ afterFirstLater 6
    (fun _ sv' => ¬ sv'.logs.lci ≤
      max (-1) (min 1 (afterFirst.prevLogInfo.index + afterFirst.entries.length)))
    (by decide +kernel)
  exact ⟨out, obs, sv', followerWith_sound (by decide), rfl, rfl, handled, finishes, past⟩

/-! ## Snapshots below the commit index -/

/-- The log is as it was, and the applier got nothing. -/
structure LeftAlone (me : Nat) (logs logs' : Logs α) (obs : List (Obs α)) : Prop where
  entries : logs'.entries = logs.entries
  offset : logs'.offset = logs.offset
  lli : logs'.lli = logs.lli
  lci : logs'.lci = logs.lci
  noopCount : logs'.noopCount = logs.noopCount
  snapshot : logs'.snapshot = logs.snapshot
  quiet : ∀ item, .queued me item ∉ obs

section

variable {cfg : Config} {me : Nat} {net : List (Msg α)} {sv sv' : Server α} {act : Act α}
  {caller : Caller} {args : AppendEntriesArgs α} {out : Out α} {obs : List (Obs α)}
  {item : ApplyEntry α} {snapshot : Snapshot α}

theorem Executes.queued_or_mem {op : Op α} {rest : List (Op α)} (next : sv.todo = op :: rest)
    (executes : Executes cfg me { sv with todo := rest } op out) (waits : .apply item ∈ sv.todo) :
    .queued me item ∈ out.obs ∨ .apply item ∈ out.server.todo := by
  rw [next, List.mem_cons] at waits
  cases executes with
  | queued =>
      rcases waits with first | later
      · cases first
        exact .inl (List.mem_singleton_self _)
      · exact .inr later
  | committed => exact .inr (List.mem_cons_of_mem _ (waits.resolve_left nofun))
  | voteGiven | voteDenied => exact .inr (List.mem_append_left _ (waits.resolve_left nofun))
  | _ => exact .inr (waits.resolve_left nofun)

theorem Steps.queued_or_mem (steps : Steps cfg me net sv act out) (isUp : sv.up = true)
    (stays : out.server.up = true) (waits : .apply item ∈ sv.todo) :
    .queued me item ∈ out.obs ∨ .apply item ∈ out.server.todo := by
  cases steps with
  | popped _ idle => simp [idle] at waits
  | executed _ next executes => exact executes.queued_or_mem next waits
  | applied _ applies => cases applies <;> exact .inr waits
  | crashed => cases stays
  | restarted down => simp [isUp] at down
  | _ => exact .inr waits

/-- What a handler has for the applier is queued before the handler ends. -/
theorem Finishes.queued (finishes : Finishes cfg me sv obs sv') (waits : .apply item ∈ sv.todo) :
    .queued me item ∈ obs := by
  induction finishes with
  | done idle => simp [idle] at waits
  | step isUp _ taken stays _ ih =>
      rcases (Server.act_steps isUp taken).queued_or_mem isUp stays waits with now | later
      · exact List.mem_append_right _ now
      · exact List.mem_append_left _ (ih later)

/-- A snapshot that is not past the commit index is installed like any other: the applier
gets it, and the commit index falls to its last index. -/
theorem stale_snapshot_installed (current : sv.term ≤ args.term)
    (carried : args.snapshot = some snapshot) (stale : snapshot.lastIncludeIndex ≤ sv.logs.lci)
    (handled : Follower.appendEntries cfg me sv caller args = some out)
    (finishes : Finishes cfg me out.server obs sv') :
    ¬ LeftAlone me sv.logs sv'.logs obs ∧
      (sv'.logs.lci < sv.logs.lci ↔ snapshot.lastIncludeIndex ≠ sv.logs.lci) := by
  obtain ⟨logs, todo⟩ := Follower.appendEntries_snapshot current carried handled
  constructor
  · intro alone
    exact alone.quiet (.snapshot snapshot) (finishes.queued (by simp [todo]))
  · have lci : sv'.logs.lci = snapshot.lastIncludeIndex := by
      rw [finishes.lci_eq, todo, logs]
      rfl
    omega

end

/-- The snapshot of the first command. -/
def firstSnapshot : Snapshot Nat where
  snapshot := [7]
  lastIncludeIndex := 0
  lastIncludeTerm := 1
  lastIncludeCmdIndex := 1
  noopCount := 0
  compacted := [command 1 1 7]

def snapshotRequest : AppendEntriesArgs Nat where
  id := 1
  term := 1
  leaderCommit := 1
  entryType := .entryTLog
  snapshot := some firstSnapshot
  sendEntries := none

theorem stale_snapshot_installed_duplicate :
    ∃ (out : Out Nat) (obs : List (Obs Nat)) (sv' : Server Nat),
      Follower.appendEntries (.doubling 3) 0 (followerWith firstTwo.entries 1) ⟨1, 0⟩
        snapshotRequest = some out ∧
      Finishes (.doubling 3) 0 out.server obs sv' ∧ sv'.logs.lci < 1 := by
  obtain ⟨out, obs, sv', handled, finishes, -⟩ := Follower.exists_finishes
    (.doubling 3) 0 (followerWith firstTwo.entries 1) ⟨1, 0⟩ snapshotRequest 6
    (fun _ _ => True) (by decide +kernel)
  have holds := stale_snapshot_installed (by decide) rfl (by decide) handled finishes
  exact ⟨out, obs, sv', handled, finishes, holds.2.mpr (by decide)⟩

/-- A follower that has committed two commands loses the second to a snapshot of the first. -/
theorem rolled_back_by_snapshot :
    ∃ (out : Out Nat) (obs : List (Obs Nat)) (sv' : Server Nat),
      (followerWith firstTwo.entries 1).logs.Sound ∧
      (followerWith firstTwo.entries 1).term ≤ snapshotRequest.term ∧
      snapshotRequest.snapshot = some firstSnapshot ∧
      firstSnapshot.lastIncludeIndex ≤ (followerWith firstTwo.entries 1).logs.lci ∧
      Follower.appendEntries (.doubling 3) 0 (followerWith firstTwo.entries 1) ⟨1, 0⟩
        snapshotRequest = some out ∧
      Finishes (.doubling 3) 0 out.server obs sv' ∧
      ¬ LeftAlone 0 (followerWith firstTwo.entries 1).logs sv'.logs obs ∧
      sv'.logs.lci = 0 ∧ sv'.logs.full = [command 1 1 7] := by
  obtain ⟨out, obs, sv', handled, finishes, lci, full⟩ := Follower.exists_finishes
    (.doubling 3) 0 (followerWith firstTwo.entries 1) ⟨1, 0⟩ snapshotRequest 6
    (fun _ sv' => sv'.logs.lci = 0 ∧ sv'.logs.full = [command 1 1 7]) (by decide +kernel)
  refine ⟨out, obs, sv', followerWith_sound (by decide), by decide, rfl, by decide, handled,
    finishes, fun alone => ?_, lci, full⟩
  exact absurd (lci.symm.trans alone.lci) (by decide)

end GoLab.Raft
