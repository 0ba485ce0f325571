import GoLab.Raft.Completeness

/-!
# State machine safety

What servers commit is a part of a chosen log.  Of two chosen logs one continues the other,
and a log counts its commands, so that all servers deliver the same command under the same
command index.
-/

namespace GoLab.Raft

variable {α : Type}
variable {cfg : Config} {sv : Server α} {out : Out α} {act : Act α}

/-! ## Conditions -/

/-- A log request that is matched in place does not announce a commit index past its end,
as far as the follower's log reaches. -/
def commitsWithin (s : Cluster α) (label : Label α) : Prop :=
  ∀ args ∈ (s.popped label).bind Event.request,
    (s.servers label.server).active = true → (s.servers label.server).role = .follower →
    (s.servers label.server).term ≤ args.term → args.entryType = .entryTLog →
    args.snapshot = none → ∀ sent ∈ args.sendEntries,
      (s.servers label.server).logs.MatchedInPlace sent →
        min args.leaderCommit (s.servers label.server).logs.lli ≤
          max (s.servers label.server).logs.lci (sent.prevLogInfo.index + sent.entries.length)

/-- Leaders are alone in their terms and serve their followers in office, and followers keep
what does not conflict and commit what they have got from the leader. -/
def commitsSafely (s : Cluster α) (label : Label α) : Prop :=
  retains s label ∧ servesInOffice s label ∧ commitsWithin s label

section

variable [DecidableEq α]

instance (logs : Logs α) (sent : SendEntries α) : Decidable (logs.MatchedInPlace sent) := by
  unfold Logs.MatchedInPlace
  infer_instance

instance (s : Cluster α) (label : Label α) : Decidable (commitsWithin s label) :=
  inferInstanceAs (Decidable (∀ _ ∈ _, _))

instance (s : Cluster α) (label : Label α) : Decidable (commitsSafely s label) :=
  inferInstanceAs (Decidable (_ ∧ _ ∧ _))

end

/-! ## Settled logs -/

/-- The log is a part of one that was chosen. -/
def Cluster.Settled (cfg : Config) (s : Cluster α) (log : List (LogEntry α)) : Prop :=
  log = [] ∨ ∃ term whole, s.Chosen cfg term whole ∧ log <+: whole

namespace Cluster.Settled

variable {allowed : Cluster α → Label α → Prop} {labels : List (Label α)} {s : Cluster α}
  {log log' : List (LogEntry α)}

theorem nil : s.Settled cfg [] :=
  .inl rfl

theorem cut (settled : s.Settled cfg log) (front : log' <+: log) : s.Settled cfg log' := by
  rcases settled with rfl | ⟨term, whole, chosen, within⟩
  · exact .inl (List.prefix_nil.mp front)
  · exact .inr ⟨term, whole, chosen, front.trans within⟩

theorem lasts {i : Nat} (settled : s.Settled cfg log) (run : Run (step cfg) allowed init labels s)
    (steps : Steps cfg i s.net (s.servers i) act out) : (s.update i out).Settled cfg log :=
  settled.imp_right fun ⟨term, whole, chosen, within⟩ =>
    ⟨term, whole, chosen.lasts run steps, within⟩

/-- Of two settled logs one continues the other. -/
theorem comparable (careful : ∀ (s : Cluster α) label, allowed s label → retains s label)
    (run : Run (step cfg) allowed init labels s) (settled : s.Settled cfg log)
    (settled' : s.Settled cfg log') : log <+: log' ∨ log' <+: log := by
  rcases settled with rfl | ⟨term, whole, chosen, within⟩
  · exact .inl List.nil_prefix
  rcases settled' with rfl | ⟨term', whole', chosen', within'⟩
  · exact .inr List.nil_prefix
  rcases chosen.comparable careful run chosen' with front | front
  · exact List.prefix_or_prefix_of_prefix (within.trans front) within'
  · exact List.prefix_or_prefix_of_prefix within (within'.trans front)

theorem dense (careful : ∀ (s : Cluster α) label, allowed s label → retains s label)
    (run : Run (step cfg) allowed init labels s) (settled : s.Settled cfg log) : Dense log := by
  rcases settled with rfl | ⟨term, whole, chosen, within⟩
  · exact .nil
  · have one := oneLeader (fun s label ok => (careful s label ok).1.1) run
    exact (chosen.onBranch.valid (fun s label ok => (careful s label ok).1.2.2) run
      one).dense.cut within

end Cluster.Settled

/-! ## The committed part of a log -/

namespace Logs

/-- The log up to the commit index. -/
def committed (logs : Logs α) : List (LogEntry α) :=
  logs.full.take (logs.lci + 1).toNat

variable {logs logs' : Logs α}

theorem Sound.length_committed (sound : logs.Sound) :
    logs.committed.length = (logs.lci + 1).toNat := by
  have length := sound.length_eq
  have commit := sound.cursors.commit
  unfold committed
  rw [List.length_take]
  omega

/-- What begins the log and is not longer than its committed part begins that part. -/
theorem Sound.front_committed (sound : logs.Sound) {log : List (LogEntry α)}
    (front : log <+: logs.full) (within : log.length ≤ logs.lci + 1) : log <+: logs.committed := by
  refine List.prefix_of_prefix_length_le front (List.take_prefix ..) ?_
  rw [sound.length_committed]
  omega

/-- The committed part stays when the commit index stays and nothing of it is replaced. -/
theorem Sound.committed_eq (sound : logs.Sound) (lci : logs'.lci = logs.lci)
    (front : logs.committed <+: logs'.full) : logs'.committed = logs.committed := by
  rw [List.prefix_iff_eq_take.mp front, sound.length_committed, committed, lci]

theorem Sound.committed_appends (sound : logs.Sound) {sent : SendEntries α} {status : EntryStatus}
    {appended : Bool} (appends : logs.Appends sent logs' status appended) :
    logs'.committed = logs.committed := by
  cases appended with
  | false => rw [appends.logs_eq]
  | true =>
      have full := sound.full_appended appends
      refine sound.committed_eq appends.lli_cases.1 ?_
      cases appends with
      | appended _ notBelow =>
          rw [full]
          refine List.IsPrefix.trans ?_ (List.prefix_append ..)
          exact List.take_prefix_take_left (by omega)

theorem Sound.committed_pushEntry (sound : logs.Sound) {et : LogEntry α} {commandIndex : Int}
    (pushed : logs.pushEntry et = (logs', commandIndex)) : logs'.committed = logs.committed := by
  refine sound.committed_eq (by rw [pushEntry_spec pushed]) ?_
  rw [full_pushEntry pushed]
  exact ( List.take_prefix ..).trans (List.prefix_append ..)

theorem committed_takeSnapshot {cmdIndex : Int} {bytes : List UInt8}
    (taken : logs.takeSnapshot cmdIndex bytes = some logs') : logs'.committed = logs.committed := by
  have full := full_takeSnapshot taken
  obtain ⟨kept, entry, term, passed, -, -, -, -, rfl⟩ := takeSnapshot_spec taken
  rw [committed, full]
  rfl

theorem committed_followerInstallSnapshot (logs : Logs α) {snapshot : Snapshot α}
    (ok : snapshot.Ok) :
    (logs.followerInstallSnapshot snapshot).committed = snapshot.compacted := by
  have length := ok.length
  rw [committed, full_followerInstallSnapshot]
  exact List.take_of_length_le (by simp only [followerInstallSnapshot]; omega)

/-- The entries between two indices continue the log up to the first of them. -/
theorem Sound.window (sound : logs.Sound) {lo hi : Int} {batch : List (LogEntry α)}
    (window : slice? logs.entries (lo - logs.offset + 1) (hi - logs.offset + 1) = some batch) :
    logs.full.take (lo + 1).toNat ++ batch = logs.full.take (hi + 1).toNat := by
  have offset := sound.offset_eq
  rw [slice?_eq_some] at window
  obtain ⟨bounds, rfl⟩ := window
  have start : (lo + 1).toNat = logs.compacted.length + (lo - logs.offset + 1).toNat := by omega
  have stop : (hi + 1).toNat = logs.compacted.length + ((lo - logs.offset + 1).toNat +
      (hi - logs.offset + 1 - (lo - logs.offset + 1)).toNat) := by omega
  rw [start, stop, full_take, full_take, List.take_add, List.append_assoc]

/-- What a follower commits after a request is committed already or a part of the sender's
log. -/
theorem Sound.commit_front {branch : Int → List (LogEntry α) → Prop} (unique : UniqueBranch branch)
    (sound : logs.Sound) (onTree : OnTree LogEntry.term branch logs.full) {sent : SendEntries α}
    {whole : List (LogEntry α)} (isEnd : sent.EndOf whole)
    (wholeOnTree : OnTree LogEntry.term branch whole) (spares : logs.Spares sent)
    {appended : Bool} (appends : logs.Appends sent logs' .entryMatch appended) {commit : Int}
    (within : logs.MatchedInPlace sent →
      commit ≤ max logs.lci (sent.prevLogInfo.index + sent.entries.length)) :
    logs'.full.take (commit + 1).toNat <+: logs.committed ∨
      logs'.full.take (commit + 1).toNat <+: whole := by
  have length := isEnd.length
  have prev := isEnd.prev
  have answered := sound.within_answered prev spares appends
  have cut {log : List (LogEntry α)} (front : log <+: logs.full)
      (reaches : commit + 1 ≤ log.length) : logs.full.take (commit + 1).toNat <+: log := by
    refine List.prefix_of_prefix_length_le (List.take_prefix ..) front ?_
    rw [List.length_take]
    omega
  cases appended with
  | true =>
      rw [sound.full_eq unique onTree isEnd wholeOnTree appends]
      exact .inr (List.take_prefix ..)
  | false =>
      cases appends with
      | below below =>
          have reaches := within (.inl below)
          by_cases covered : commit ≤ logs.lci
          · refine .inl (cut (List.take_prefix ..) ?_)
            have committed := sound.length_committed
            omega
          · have something : sent.entries ≠ [] := List.ne_nil_of_length_pos (by omega)
            exact .inr (cut (answered.front unique isEnd something onTree wholeOnTree) (by omega))
      | held notBelow bounds matched nothing =>
          have reaches := within (.inr ⟨nothing, bounds.1, bounds.2, matched⟩)
          simp only [nothing, List.length_nil] at length reaches
          refine .inr (cut ?_ (by omega))
          by_cases first : sent.prevLogInfo.index < 0
          · rw [List.eq_nil_of_length_eq_zero (by omega : whole.length = 0)]
            exact List.nil_prefix
          · have same := onTree.matching unique wholeOnTree
              (sound.term_at (by omega) (matched.resolve_left first)) (isEnd.term (by omega))
            rw [List.take_of_length_le (l := whole) (by omega)] at same
            rw [← same]
            exact List.take_prefix ..

end Logs

theorem Persister.SavedFrom.committed_eq {persister : Persister α} {logs : Logs α} {term : Int}
    (saved : persister.SavedFrom logs term) : persister.logs.committed = logs.committed := by
  rw [Logs.committed, saved.full_eq, saved.lci_eq, Logs.committed]

/-! ## What is delivered is committed -/

/-- What waits for the service, and what it has received, is committed. -/
structure Delivering (sv : Server α) : Prop where
  queue : ∀ batch lai, .log batch lai ∈ sv.applier → ∃ front, front ++ batch <+: sv.logs.committed
  hand : ∀ rest, sv.hand = .log rest → ∃ front, front ++ rest <+: sv.logs.committed
  requested : Requested (fun index => ∃ entry ∈ sv.logs.committed, entry.commandIndex = index) sv

namespace Delivering

variable {me : Nat} {net : List (Msg α)}

theorem queue_steps (delivering : Delivering sv) (steps : Steps cfg me net sv act out)
    (memory : sv.logs.Sound) (disk : sv.persister.logs.Sound)
    (snapshots : sv.up = true → ∀ item, .apply item ∈ sv.todo →
      ∃ snapshot, item = .snapshot snapshot)
    (grows : sv.up = true → sv.logs.committed <+: out.server.logs.committed)
    {batch : List (LogEntry α)} {lai : Int} (queued : .log batch lai ∈ out.server.applier) :
    ∃ front, front ++ batch <+: out.server.logs.committed := by
  have before (up : sv.up = true) (wasQueued : .log batch lai ∈ sv.applier) :
      ∃ front, front ++ batch <+: out.server.logs.committed := by
    obtain ⟨front, within⟩ := delivering.queue batch lai wasQueued
    exact ⟨front, within.trans (grows up)⟩
  cases steps with
  | popped up _ _ handles => exact before up (handles.applier_eq ▸ queued)
  | executed up next executes =>
      cases executes with
      | queued =>
          rcases List.mem_append.mp queued with wasQueued | isNew
          · exact before up wasQueued
          · cases List.mem_singleton.mp isNew
            obtain ⟨snapshot, impossible⟩ := snapshots up _ (by rw [next]; exact .head _)
            cases impossible
      | committed result =>
          rcases List.mem_append.mp queued with wasQueued | isNew
          · exact before up wasQueued
          · obtain ⟨commit, batch, -, -, window, rfl, rfl⟩ := Logs.updateCommit_spec result
            cases List.mem_singleton.mp isNew
            refine ⟨sv.logs.committed, ?_⟩
            rw [Logs.committed, memory.window window]
            exact List.prefix_rfl
      | _ => exact before up queued
  | applied up applies =>
      refine before up ?_
      cases applies with
      | takenLog _ next | takenSnapshot _ next => exact next ▸ List.mem_cons_of_mem _ queued
      | _ => exact queued
  | restarted _ made =>
      obtain ⟨applier, -, isUnfinished, rfl⟩ := make_eq_some made
      obtain ⟨-, window⟩ := batch_of_mem_unfinished isUnfinished queued
      exact ⟨_, by rw [disk.window window]; exact List.prefix_rfl⟩
  | _ => exact before ‹_› queued

theorem hand_steps (delivering : Delivering sv) (steps : Steps cfg me net sv act out)
    (grows : sv.up = true → sv.logs.committed <+: out.server.logs.committed)
    {rest : List (LogEntry α)} (holds : out.server.hand = .log rest) :
    ∃ front, front ++ rest <+: out.server.logs.committed := by
  have before (up : sv.up = true) (held : sv.hand = .log rest) :
      ∃ front, front ++ rest <+: out.server.logs.committed := by
    obtain ⟨front, within⟩ := delivering.hand rest held
    exact ⟨front, within.trans (grows up)⟩
  have step (up : sv.up = true) {entry : LogEntry α} (held : sv.hand = .log (entry :: rest)) :
      ∃ front, front ++ rest <+: out.server.logs.committed := by
    obtain ⟨front, within⟩ := delivering.hand _ held
    exact ⟨front ++ [entry], by simpa using within.trans (grows up)⟩
  cases steps with
  | popped up _ _ handles => exact before up (handles.hand_eq ▸ holds)
  | executed up _ executes =>
      refine before up ?_
      cases executes <;> exact holds
  | applied up applies =>
      cases applies with
      | takenLog _ next =>
          cases holds
          obtain ⟨front, within⟩ := delivering.queue _ _ (by rw [next]; exact .head _)
          exact ⟨front, within.trans (grows up)⟩
      | skipped next | delivered next =>
          cases holds
          exact step up next
      | takenSnapshot | finished | snapshotDelivered | snapshotApplied => cases holds
  | restarted _ made =>
      obtain ⟨applier, -, -, rfl⟩ := make_eq_some made
      cases holds
  | _ => exact before ‹_› holds

theorem steps (delivering : Delivering sv) (steps : Steps cfg me net sv act out)
    (memory : sv.logs.Sound) (disk : sv.persister.logs.Sound)
    (snapshots : sv.up = true → ∀ item, .apply item ∈ sv.todo →
      ∃ snapshot, item = .snapshot snapshot)
    (grows : sv.up = true → sv.logs.committed <+: out.server.logs.committed) :
    Delivering out.server where
  queue _ _ := delivering.queue_steps steps memory disk snapshots grows
  hand _ := delivering.hand_steps steps grows
  requested := by
    cases isUp : sv.up with
    | false =>
        obtain ⟨-, made, -⟩ := steps.restarts isUp
        obtain ⟨applier, -, -, server⟩ := make_eq_some made
        rw [server]
        exact ⟨by simp, by simp, by simp⟩
    | true =>
        refine (delivering.requested.steps steps fun entry rest held _ => ?_).mono ?_
        · obtain ⟨front, within⟩ := delivering.hand _ held
          exact ⟨entry, within.subset (by simp), rfl⟩
        · exact fun index ⟨entry, inside, same⟩ => ⟨entry, (grows isUp).subset inside, same⟩

end Delivering

/-! ## What servers commit -/

/-- A commit that is due was due before, or is that of a request a follower has matched, or
that of a confirmation a leader has counted. -/
inductive CommitDue (cfg : Config) (sv : Server α) (act : Act α) (leaderCommit : Int)
    (out : Out α) : Prop where
  | before (wasDue : .updateCommit leaderCommit ∈ sv.todo)
      (full : out.server.logs.full = sv.logs.full) (lli : out.server.logs.lli = sv.logs.lli)
  | matched {caller : Caller} {args : AppendEntriesArgs α} {sent : SendEntries α} {appended : Bool}
      (follows : Follows sv act caller args out.server) (plain : args.snapshot = none)
      (carried : args.sendEntries = some sent) (isLog : args.entryType = .entryTLog)
      (result : sv.logs.followerAppendEntries sent =
        some (out.server.logs, .entryMatch, appended))
      (announced : leaderCommit = args.leaderCommit)
  | counted {role id : Nat} {startIndex endIndex : Int} {rc rc' : ReplCounter}
      (received : .replConfirm role id startIndex endIndex ∈ sv.evCh)
      (leader : sv.role = .leader rc)
      (result : rc.confirm cfg.majorN id startIndex endIndex = some (rc', some leaderCommit))
      (logs : out.server.logs = sv.logs)

theorem Steps.commitDue {me : Nat} {net : List (Msg α)} (steps : Steps cfg me net sv act out)
    (stays : out.server.up = true) {leaderCommit : Int}
    (due : .updateCommit leaderCommit ∈ out.server.todo) :
    sv.up = true ∧ CommitDue cfg sv act leaderCommit out := by
  cases steps with
  | popped up idle next handles =>
      refine ⟨up, ?_⟩
      cases handles with
      | appended running follower current plain carried result =>
          simp only [List.mem_append, List.mem_singleton, reduceCtorEq, or_false] at due
          rcases due with impossible | due
          · split at impossible <;> simp at impossible
          · split at due
            case isTrue commits =>
              obtain ⟨rfl, isLog⟩ := commits
              cases List.mem_singleton.mp due
              exact .matched ⟨rfl, up, idle, ⟨_, next⟩, running, follower, current,
                Server.raiseTo_term_eq current, rfl⟩ plain carried isLog result rfl
            case isFalse => cases due
      | @confirmed _ _ _ _ _ _ commit _ leader result =>
          cases commit with
          | none => cases due
          | some commit =>
              cases List.mem_singleton.mp due
              have received := next ▸ List.mem_cons_self
              exact .counted received leader result rfl
      | counted =>
          dsimp only at due
          split at due <;> simp at due
      | ignored | becameFollower | becameCandidate => simp [idle] at due
      | _ => simp at due
  | executed up next executes =>
      have same := executes.sameLog next
      refine ⟨up, .before ?_ same.full_eq same.lli⟩
      cases executes <;> simp_all
  | applied up applies => cases applies <;> exact ⟨up, .before due rfl rfl⟩
  | crashed => cases stays
  | restarted _ made =>
      obtain ⟨applier, -, -, rfl⟩ := make_eq_some made
      cases due
  | _ => exact ⟨‹_›, .before due rfl rfl⟩

/-- What a request says about commits: its snapshot is settled, and so is the log of the
leader up to the commit index it announces. -/
structure Announced (cfg : Config) (s : Cluster α) (args : AppendEntriesArgs α) : Prop where
  snapshot : ∀ snapshot ∈ args.snapshot, s.Settled cfg snapshot.compacted
  commit : ∃ part, s.OnBranch args.term part ∧ s.Settled cfg part ∧
    args.leaderCommit < part.length

/-- What a server has committed or is about to commit is settled, its snapshot is committed,
and it delivers what is committed. -/
structure Committed (cfg : Config) (s : Cluster α) (sv : Server α) : Prop where
  memory : s.Settled cfg sv.logs.committed
  disk : s.Settled cfg sv.persister.logs.committed
  base : sv.logs.offset ≤ sv.logs.lci + 1
  diskBase : sv.persister.logs.offset ≤ sv.persister.logs.lci + 1
  due : sv.up = true → ∀ leaderCommit, .updateCommit leaderCommit ∈ sv.todo →
    s.Settled cfg (sv.logs.full.take (min leaderCommit sv.logs.lli + 1).toNat)
  delivering : Delivering sv

section

variable {allowed : Cluster α → Label α → Prop} {labels : List (Label α)} {s : Cluster α} {i : Nat}

theorem Announced.lasts {args : AppendEntriesArgs α} (announced : Announced cfg s args)
    (run : Run (Cluster.step cfg) allowed Cluster.init labels s)
    (steps : Steps cfg i s.net (s.servers i) act out) :
    Announced cfg (s.update i out) args where
  snapshot snapshot carried := (announced.snapshot snapshot carried).lasts run steps
  commit := by
    obtain ⟨part, onBranch, settled, reaches⟩ := announced.commit
    exact ⟨part, onBranch.lasts run steps, settled.lasts run steps, reaches⟩

namespace Committed

theorem lasts (committed : Committed cfg s sv)
    (run : Run (Cluster.step cfg) allowed Cluster.init labels s)
    (steps : Steps cfg i s.net (s.servers i) act out) : Committed cfg (s.update i out) sv where
  memory := committed.memory.lasts run steps
  disk := committed.disk.lasts run steps
  base := committed.base
  diskBase := committed.diskBase
  due isUp leaderCommit isDue := (committed.due isUp leaderCommit isDue).lasts run steps
  delivering := committed.delivering

/-- A request of a leader announces what it has committed. -/
theorem announces {args : AppendEntriesArgs α} (committed : Committed cfg s sv)
    (sound : sv.logs.Sound) (onBranch : s.OnBranch args.term sv.logs.full)
    (commit : args.leaderCommit = sv.logs.lci)
    (snapshots : ∀ snapshot ∈ args.snapshot, s.Settled cfg snapshot.compacted) :
    Announced cfg s args where
  snapshot := snapshots
  commit := by
    have length := sound.length_committed
    exact ⟨sv.logs.committed, onBranch.cut (List.take_prefix ..), committed.memory, by omega⟩

theorem snapshot_settled (committed : Committed cfg s sv) (sound : sv.logs.Sound)
    {snapshot : Snapshot α} (isSnapshot : sv.logs.snapshot = some snapshot) :
    s.Settled cfg snapshot.compacted := by
  have length := (sound.snapshot snapshot isSnapshot).length
  have offset := sound.cursors.base snapshot isSnapshot
  have base := committed.base
  exact committed.memory.cut
    (sound.front_committed (Logs.compacted_front isSnapshot) (by omega))

variable (committed : Committed cfg s (s.servers i))
  (careful : ∀ (s : Cluster α) label, allowed s label → retains s label)
  (run : Run (Cluster.step cfg) allowed Cluster.init labels s)
  (received : Received (fun _ args => Announced cfg s args) (s.servers i))
  (steps : Steps cfg i s.net (s.servers i) act out)

include committed careful run received steps

/-- The committed part of a log is only continued, and what it is continued by is settled. -/
theorem grows (ok : allowed s ⟨i, act⟩) : s.Settled cfg out.server.logs.committed ∧
    ((s.servers i).up = true →
      (s.servers i).logs.committed <+: out.server.logs.committed) := by
  have sound := (Cluster.sound run i).memory
  have keeps := (careful s _ ok).2
  have requested := (Cluster.requests_onBranch (fun s label ok => (careful s label ok).1.2.1)
    (fun s label ok => (careful s label ok).1.2.2) run).1 i
  have same (eq : out.server.logs.committed = (s.servers i).logs.committed) :
      s.Settled cfg out.server.logs.committed ∧ ((s.servers i).up = true →
        (s.servers i).logs.committed <+: out.server.logs.committed) := by
    rw [eq]
    exact ⟨committed.memory, fun _ => List.prefix_rfl⟩
  cases steps.edits with
  | kept _ logs => exact same (by rw [logs])
  | @installed _ _ snapshot follows carried logs =>
      have settled := (received _ _ follows.mem).snapshot _ carried
      have ok := (requested _ _ follows.mem).snapshot _ carried
      rw [logs, Logs.committed_followerInstallSnapshot _ ok.1]
      refine ⟨settled, fun _ => ?_⟩
      rcases committed.memory.comparable careful run settled with front | back
      · exact front
      · have within : snapshot.compacted <+: (s.servers i).logs.full :=
          back.trans (List.take_prefix ..)
        rcases sound.replaces_installed ok.1 ((follows.spares keeps).1 _ carried) with
          longer | ⟨k, entry, entry', found, found', conflict⟩
        · have shorter := ( List.take_prefix .. : (s.servers i).logs.committed <+: _).length_le
          rw [back.eq_of_length_le (Nat.le_trans shorter longer)]
        · cases found.symm.trans (getElem?_extend within found')
          exact (conflict rfl).elim
  | appended _ _ _ result =>
      exact same (sound.committed_appends (Logs.followerAppendEntries_appends sound.cursors result))
  | pushed _ pushed => exact same (sound.committed_pushEntry pushed)
  | taken _ _ taken => exact same (Logs.committed_takeSnapshot taken)
  | @committed leaderCommit _ _ isUp isNext result =>
      obtain ⟨commit, batch, larger, rfl, -, logs, -⟩ := Logs.updateCommit_spec result
      have isCommitted : out.server.logs.committed = (s.servers i).logs.full.take
          (min leaderCommit (s.servers i).logs.lli + 1).toNat := by rw [logs]; rfl
      rw [isCommitted]
      refine ⟨committed.due isUp leaderCommit (by rw [isNext]; exact .head _), fun _ => ?_⟩
      exact List.take_prefix_take_left (by omega)
  | applied _ _ logs => exact same (by rw [logs]; rfl)
  | restored down logs =>
      rw [logs]
      exact ⟨committed.disk, fun isUp => by simp [isUp] at down⟩

omit careful received in
/-- A snapshot is taken of what is committed. -/
theorem based (alone : ∀ (s : Cluster α) label, allowed s label → leadsAlone s label) :
    out.server.logs.offset ≤ out.server.logs.lci + 1 := by
  have one := Cluster.oneLeader (fun s label ok => (alone s label ok).1) run
  have memory := ((Cluster.valid (fun s label ok => (alone s label ok).2.2) run one).1 i).memory
  have sound := memory.sound
  have base := committed.base
  cases steps.edits with
  | kept _ logs | applied _ _ logs => simpa only [logs] using base
  | installed _ _ logs =>
      rw [logs]
      exact Int.le_refl _
  | appended _ _ _ result =>
      generalize out.server.logs = logs at result ⊢
      cases Logs.followerAppendEntries_appends sound.cursors result <;> exact base
  | pushed _ pushed =>
      rw [Logs.pushEntry_spec pushed]
      exact base
  | @taken index bytes rest _ isNext taken =>
      have inside : .snapshot index bytes ∈ (s.servers i).evCh := isNext ▸ List.mem_cons_self
      obtain ⟨entry, isCommitted, named⟩ := committed.delivering.requested.event _ _ inside
      obtain ⟨k, found⟩ := List.mem_iff_getElem?.mp isCommitted
      obtain ⟨kept, entry', term, passed, found', named', -, -, logs⟩ :=
        Logs.takeSnapshot_spec taken
      have command : entry'.commandIndex ≠ noopIndex :=
        named' ▸ (Cluster.requested run i).event _ _ inside
      rw [Logs.getElem?_entries] at found'
      have place := memory.full.dense.place_eq found'
        (getElem?_extend ( List.take_prefix ..) found) command (named'.trans named.symm)
      have reaches := (List.getElem?_eq_some_iff.mp found).1
      rw [sound.length_committed] at reaches
      have offset := sound.offset_eq
      simp only [logs]
      omega
  | committed _ _ result =>
      obtain ⟨commit, batch, larger, -, -, logs, -⟩ := Logs.updateCommit_spec result
      simp only [logs]
      omega
  | restored _ logs =>
      rw [logs]
      exact committed.diskBase

/-- What a server is about to commit is settled. -/
theorem dues (ok : allowed s ⟨i, act⟩) (within : commitsWithin s ⟨i, act⟩)
    (stays : out.server.up = true) {leaderCommit : Int}
    (due : .updateCommit leaderCommit ∈ out.server.todo) :
    s.Settled cfg (out.server.logs.full.take (min leaderCommit out.server.logs.lli + 1).toNat) := by
  have office (s : Cluster α) (label : Label α) (ok : allowed s label) := (careful s label ok).1.2.1
  have intact (s : Cluster α) (label : Label α) (ok : allowed s label) := (careful s label ok).1.2.2
  have one := Cluster.oneLeader (fun s label ok => (careful s label ok).1.1) run
  have memory := ((Cluster.valid intact run one).1 i).memory
  obtain ⟨up, isDue⟩ := steps.commitDue stays due
  cases isDue with
  | before wasDue full lli =>
      rw [full, lli]
      exact committed.due up leaderCommit wasDue
  | @matched _ args sent _ follows plain carried isLog result announced =>
      subst announced
      have appends := Logs.followerAppendEntries_appends memory.sound.cursors result
      obtain ⟨whole, isEnd, onBranch⟩ :=
        ((Cluster.requests_onBranch office intact run).1 i _ _ follows.mem).entries _ carried
      have inPlace := within args follows.popped follows.running follows.follower follows.current
        isLog plain _ carried
      have ahead : (s.servers i).logs.MatchedInPlace sent → min args.leaderCommit
          out.server.logs.lli ≤ max (s.servers i).logs.lci
            (sent.prevLogInfo.index + sent.entries.length) := by
        intro isMatched
        rcases appends.lli_cases.2.1 rfl with ⟨-, lli⟩ | ⟨notMatched, -⟩
        · exact lli ▸ inPlace isMatched
        · exact (notMatched isMatched).elim
      rcases memory.sound.commit_front one.uniqueBranch memory.full.onTree isEnd
        (onBranch.valid intact run one).onTree
        ((follows.spares (careful s _ ok).2).2 plain _ carried) appends ahead with front | front
      · exact committed.memory.cut front
      · obtain ⟨part, partOnBranch, settled, reaches⟩ := (received _ _ follows.mem).commit
        refine settled.cut ((onBranch.cut front).front one partOnBranch ?_)
        rw [List.length_take]
        omega
  | counted isReceived leader result logs =>
      obtain ⟨term, chosen⟩ :=
        Cluster.chosen_of_confirm office intact run up isReceived leader result
      rw [logs]
      exact .inr ⟨term, _, chosen, List.take_prefix_take_left (by omega)⟩

theorem kept (ok : allowed s ⟨i, act⟩) (within : commitsWithin s ⟨i, act⟩) :
    Committed cfg s out.server := by
  have sound := Cluster.sound run i
  obtain ⟨memory, grows⟩ := committed.grows careful run received steps ok
  have base := committed.based run steps fun s label ok => (careful s label ok).1
  refine ⟨memory, ?_, base, ?_, fun stays _ due =>
    committed.dues careful run received steps ok within stays due, ?_⟩
  · cases steps.saves with
    | kept same => exact same ▸ committed.disk
    | before _ saved => exact saved.committed_eq ▸ committed.memory
    | after saved => exact saved.committed_eq ▸ memory
  · cases steps.saves with
    | kept same => exact same ▸ committed.diskBase
    | before _ saved => exact saved.offset_eq ▸ saved.lci_eq ▸ committed.base
    | after saved => exact saved.offset_eq ▸ saved.lci_eq ▸ base
  · exact committed.delivering.steps steps sound.memory sound.disk
      (fun up _ due => Cluster.apply_snapshot run up due) grows

end Committed

end

/-- Every server commits what is settled and delivers what is committed. -/
theorem Cluster.committed {allowed : Cluster α → Label α → Prop}
    (safe : ∀ (s : Cluster α) label, allowed s label → commitsSafely s label)
    {labels : List (Label α)} {s : Cluster α} (run : Run (step cfg) allowed init labels s)
    (i : Nat) : Committed cfg s (s.servers i) := by
  have careful (s : Cluster α) (label : Label α) (ok : allowed s label) := (safe s label ok).1
  refine (served (fun _ s _ sv => Committed cfg s sv)
    (fun _ s i repl args => Led s.obs i repl.ld args.term ∧ Announced cfg s args)
    ?_ (fun _ _ _ _ _ _ _ run steps committed => committed.lasts run steps)
    (fun _ _ _ _ _ _ _ _ run steps known => ⟨known.1.append, known.2.lasts run steps⟩)
    (fun _ _ _ _ _ _ before => before) ?_ ?_ ?_ ?_ run).1 i
  · exact fun _ => ⟨.nil, .nil, Int.le_refl _, Int.le_refl _, by simp [Server.initial],
      by simp [Server.initial], by simp [Server.initial],
      ⟨by simp [Server.initial], by simp [Server.initial], by simp [Server.initial]⟩⟩
  · intro labels s i act out earlier committed received ok steps
    refine (committed.kept careful earlier (fun caller args membership => ?_) steps ok
      (safe s _ ok).2.2).lasts earlier steps
    obtain ⟨repl, -, announced⟩ := received caller args membership
    exact announced
  · intro labels s i number repl args earlier committed ok up found builds
    have sound := (sound earlier i).memory
    have membership := List.mem_of_getElem? found
    have office := (careful s _ ok).1.2.1 repl found builds.building
    obtain ⟨snapshots, -⟩ := builds.payload sound
    refine ⟨builds.term_eq ▸ (led_of_inOffice earlier up membership office).2,
      committed.announces sound ?_ builds.leaderCommit_eq fun snapshot carried =>
        committed.snapshot_settled sound (snapshots snapshot carried)⟩
    exact builds.term_eq ▸ onBranch_of_inOffice earlier up membership office
  · rintro labels s i number repl call earlier committed ok up found calling ⟨led, announced⟩
    have membership := List.mem_of_getElem? found
    have office := (safe s _ ok).2.1 repl found (by rw [calling]; rfl)
    have now := (led_of_inOffice earlier up membership office).2
    have onBranch := onBranch_of_inOffice earlier up membership office
    rw [← led_unique earlier led now] at onBranch
    exact ⟨led, committed.announces (sound earlier i).memory onBranch rfl announced.snapshot⟩
  · intro labels s i number repl call ok found calling before
    have same : Replicator.copy (s.servers i) call = call.args :=
      (careful s ⟨i, .call number⟩ ok).1.2.2 repl found call calling
    rw [same]
    exact before

/-! ## Delivered commands -/

theorem Steps.delivered_mem {me : Nat} {net : List (Msg α)} (steps : Steps cfg me net sv act out)
    {i : Nat} {commandIndex : Int} {command : Option α}
    (delivered : .delivered i (.command commandIndex command) ∈ out.obs) :
    i = me ∧ ∃ entry rest, sv.hand = .log (entry :: rest) ∧ commandIndex ≠ noopIndex ∧
      entry.commandIndex = commandIndex ∧ entry.content = command := by
  cases steps with
  | popped _ _ _ handles =>
      cases handles with
      | _ => simp at delivered
  | executed _ _ executes =>
      cases executes with
      | _ => simp at delivered
  | applied _ applies =>
      cases applies with
      | delivered next isCommand =>
          cases List.mem_singleton.mp delivered
          exact ⟨rfl, _, _, next, isCommand, rfl, rfl⟩
      | _ => simp at delivered
  | _ => simp at delivered

/-- What a server delivers is an entry of a settled log. -/
theorem Cluster.delivered_settled {allowed : Cluster α → Label α → Prop}
    (safe : ∀ (s : Cluster α) label, allowed s label → commitsSafely s label)
    {labels : List (Label α)} {s : Cluster α} (run : Run (step cfg) allowed init labels s) {i : Nat}
    {commandIndex : Int} {command : Option α}
    (delivered : .delivered i (.command commandIndex command) ∈ s.obs) :
    ∃ log entry, s.Settled cfg log ∧ entry ∈ log ∧ commandIndex ≠ noopIndex ∧
      entry.commandIndex = commandIndex ∧ entry.content = command := by
  refine Run.invariant (fun _ s => ∀ i commandIndex command,
    .delivered i (.command commandIndex command) ∈ s.obs → ∃ log entry, s.Settled cfg log ∧
      entry ∈ log ∧ commandIndex ≠ noopIndex ∧ entry.commandIndex = commandIndex ∧
        entry.content = command) (by simp [init]) ?_ run i commandIndex command delivered
  intro _ s label s' earlier before _ taken i commandIndex command delivered
  obtain ⟨out, -, steps, rfl⟩ := step_steps taken
  suffices now : ∃ log entry, s.Settled cfg log ∧ entry ∈ log ∧ commandIndex ≠ noopIndex ∧
      entry.commandIndex = commandIndex ∧ entry.content = command by
    obtain ⟨log, entry, settled, found⟩ := now
    exact ⟨log, entry, settled.lasts earlier steps, found⟩
  rcases List.mem_append.mp delivered with isNew | wasThere
  · obtain ⟨rfl, entry, rest, holds, found⟩ := steps.delivered_mem isNew
    have committed := committed safe earlier label.server
    obtain ⟨front, within⟩ := committed.delivering.hand _ holds
    exact ⟨_, entry, committed.memory, within.subset (by simp), found⟩
  · exact before i commandIndex command wasThere

/-- In every run in which leaders are alone in their terms and serve their followers in
office, and followers keep what does not conflict and commit what they have got from the
leader, no two servers deliver different commands under the same command index. -/
theorem state_machine_safety {cfg : Config} {labels : List (Label α)} {s : Cluster α}
    (run : Run (Cluster.step cfg) commitsSafely Cluster.init labels s) {i j : Nat}
    {commandIndex : Int} {command command' : Option α}
    (delivered : .delivered i (.command commandIndex command) ∈ s.obs)
    (delivered' : .delivered j (.command commandIndex command') ∈ s.obs) :
    command = command' := by
  have careful (s : Cluster α) (label : Label α) (ok : commitsSafely s label) := ok.1
  obtain ⟨log, entry, settled, inside, isCommand, rfl, rfl⟩ :=
    Cluster.delivered_settled (fun _ _ => id) run delivered
  obtain ⟨log', entry', settled', inside', -, same, rfl⟩ :=
    Cluster.delivered_settled (fun _ _ => id) run delivered'
  rcases settled.comparable careful run settled' with front | front
  · rw [(settled'.dense careful run).entry_eq (front.subset inside) inside' isCommand same.symm]
  · rw [(settled.dense careful run).entry_eq inside (front.subset inside') isCommand same.symm]

theorem state_machine_safety_followerDelivers :
    ∃ s, Run (Cluster.step (.doubling 3)) commitsSafely Cluster.init followerDelivers s ∧
      .delivered 0 (.command 1 (some 7)) ∈ s.obs ∧ .delivered 1 (.command 1 (some 7)) ∈ s.obs ∧
      ∀ command, .delivered 0 (.command 1 command) ∈ s.obs → command = some 7 := by
  obtain ⟨s, run, left, right⟩ :
      ∃ s, Run (Cluster.step (.doubling 3)) commitsSafely Cluster.init followerDelivers s ∧
        .delivered 0 (.command 1 (some 7)) ∈ s.obs ∧ .delivered 1 (.command 1 (some 7)) ∈ s.obs :=
    Run.exists_of_runSteps (by decide +kernel)
  exact ⟨s, run, left, right, fun _ delivered => state_machine_safety run delivered right⟩

/-- Each of the two leaders of term 2 replicates a command to server 2 and commits it. -/
def bothLeadersCommit : List (Label Nat) :=
  twoLeaders ++
  Label.all 0 [.start (some 100), .pop, .exec, .exec, .repl 1, .repl 1, .repl 1, .repl 1,
    .call 1] ++
  Label.all 2 [.receive 9, .pop, .exec] ++
  Label.all 0 [.receive 10, .repl 1, .repl 1, .repl 1, .repl 1, .repl 1] ++
  Label.all 1 [.start (some 200), .pop, .exec, .exec, .repl 1, .repl 1, .repl 1, .repl 1,
    .call 1] ++
  Label.all 2 [.receive 11, .pop, .exec] ++
  Label.all 1 [.receive 12, .repl 1, .repl 1, .repl 1, .repl 1, .repl 1] ++
  Label.all 0 [.call 1] ++
  Label.all 2 [.receive 13, .pop, .exec, .exec, .exec] ++
  Label.all 0 [.receive 14, .pop, .exec, .exec, .applier, .applier, .applier] ++
  Label.all 1 [.call 1] ++
  Label.all 2 [.receive 15, .pop, .exec, .exec, .exec] ++
  Label.all 1 [.receive 16, .pop, .exec, .exec, .applier, .applier, .applier]

/-- Two servers deliver different commands under the command index 1. -/
theorem different_commands_delivered :
    ∃ s, Run (Cluster.step (.doubling 3)) (fun _ _ => True) Cluster.init bothLeadersCommit s ∧
      .delivered 0 (.command 1 (some 100)) ∈ s.obs ∧
        .delivered 1 (.command 1 (some 200)) ∈ s.obs :=
  Run.exists_of_runSteps (by decide +kernel)

end GoLab.Raft
