import GoLab.Raft.LeaderLog
import GoLab.Raft.Saving

/-!
# Log matching

Every log lies on the tree of the leaders' logs: the ones in memory, the ones on
disk, what snapshots stand for, and the logs requests are cut from.  A follower that
finds the entry before a request in its log has everything before it in common with
the sender, and its log becomes the sender's.
-/

namespace GoLab.Raft

variable {α : Type}

/-- A follower that writes a request into its log ends with the sender's log. -/
theorem Logs.Sound.full_eq {logs logs' : Logs α} {branch : Int → List (LogEntry α) → Prop}
    (unique : UniqueBranch branch) (ok : logs.Sound)
    (onTree : OnTree LogEntry.term branch logs.full) {sent : SendEntries α}
    {whole : List (LogEntry α)} (isEnd : sent.EndOf whole)
    (wholeOnTree : OnTree LogEntry.term branch whole) {status : EntryStatus}
    (appends : logs.Appends sent logs' status true) : logs'.full = whole := by
  rw [ok.full_appended appends, isEnd.entries]
  cases appends with
  | appended kept _ inside matched =>
      by_cases first : sent.prevLogInfo.index < 0
      · have prev := isEnd.prev
        have start : (sent.prevLogInfo.index + 1).toNat = 0 := by omega
        simp [start]
      · have found := ok.term_at (by omega) (matched.resolve_left first)
        have found' := isEnd.term (by omega)
        have next : (sent.prevLogInfo.index + 1).toNat = sent.prevLogInfo.index.toNat + 1 := by
          omega
        rw [next]
        exact onTree.splice unique wholeOnTree found found'

/-! ## Every log is on the tree -/

/-- The log lies on the tree of the leaders' logs, has no entry of a later term, and
counts its commands. -/
structure Cluster.Valid (s : Cluster α) (term : Int) (log : List (LogEntry α)) : Prop where
  onTree : OnTree LogEntry.term s.branch log
  bounded : ∀ entry ∈ log, entry.term ≤ term
  dense : Dense log

structure Logs.Valid (s : Cluster α) (term : Int) (logs : Logs α) : Prop where
  sound : logs.Sound
  full : s.Valid term logs.full
  counted : ∀ snapshot ∈ logs.snapshot, snapshot.Counted

structure AppendEntriesArgs.Valid (s : Cluster α) (args : AppendEntriesArgs α) : Prop where
  snapshot : ∀ snapshot ∈ args.snapshot,
    snapshot.Ok ∧ snapshot.Counted ∧ s.Valid args.term snapshot.compacted
  entries : ∀ sent ∈ args.sendEntries, ∃ whole, sent.EndOf whole ∧ s.Valid args.term whole

structure Server.Valid (s : Cluster α) (sv : Server α) : Prop where
  memory : sv.logs.Valid s sv.term
  disk : sv.persister.logs.Valid s sv.persister.term

/-- What a replicator sends is what it has built: the array behind the entries has
not been written to since. -/
def copiesIntact (s : Cluster α) (label : Label α) : Prop :=
  match label.act with
  | .call number => ∀ repl ∈ (s.servers label.server).repls[number]?, ∀ call ∈ repl.calling,
      Replicator.copy (s.servers label.server) call = call.args
  | _ => True

instance [DecidableEq α] (s : Cluster α) (label : Label α) : Decidable (copiesIntact s label) := by
  delta copiesIntact
  rcases label.act <;> infer_instance

namespace Cluster

variable {cfg : Config} {allowed : Cluster α → Label α → Prop} {labels : List (Label α)}
  {s : Cluster α} {i : Nat} {act : Act α} {out : Out α}

theorem Valid.nil {term : Int} : s.Valid term [] :=
  ⟨.nil, by simp, .nil⟩

theorem Valid.cut {term : Int} {log whole : List (LogEntry α)} (valid : s.Valid term whole)
    (front : log <+: whole) : s.Valid term log :=
  ⟨valid.onTree.cut front, fun entry membership => valid.bounded entry (front.subset membership),
    valid.dense.cut front⟩

theorem Valid.later {term term' : Int} {log : List (LogEntry α)} (valid : s.Valid term log)
    (later : term ≤ term') : s.Valid term' log :=
  ⟨valid.onTree, fun entry membership => Int.le_trans (valid.bounded entry membership) later,
    valid.dense⟩

theorem Valid.lasts {term : Int} {log : List (LogEntry α)} (valid : s.Valid term log)
    (run : Run (step cfg) allowed init labels s)
    (steps : Steps cfg i s.net (s.servers i) act out) : (s.update i out).Valid term log :=
  ⟨valid.onTree.mono fun _ _ => branch_grows run steps, valid.bounded, valid.dense⟩

end Cluster

section

variable {cfg : Config} {allowed : Cluster α → Label α → Prop} {labels : List (Label α)}
  {s : Cluster α} {i : Nat} {act : Act α} {out : Out α}

theorem Logs.Valid.lasts {term : Int} {logs : Logs α} (valid : logs.Valid s term)
    (run : Run (Cluster.step cfg) allowed Cluster.init labels s)
    (steps : Steps cfg i s.net (s.servers i) act out) : logs.Valid (s.update i out) term :=
  ⟨valid.sound, valid.full.lasts run steps, valid.counted⟩

theorem Logs.Valid.later {term term' : Int} {logs : Logs α} (valid : logs.Valid s term)
    (later : term ≤ term') : logs.Valid s term' :=
  ⟨valid.sound, valid.full.later later, valid.counted⟩

theorem Logs.Valid.saved {term : Int} {logs : Logs α} {persister : Persister α}
    (valid : logs.Valid s term) (saved : persister.SavedFrom logs term) :
    persister.logs.Valid s persister.term where
  sound := saved.sound valid.sound
  full := by
    rw [saved.full_eq, saved.term_eq]
    exact valid.full
  counted := by
    obtain ⟨sv, rfl, restored⟩ := saved.logs_eq
    intro snapshot membership
    obtain ⟨original, isSnapshot, rfl⟩ := Server.mem_restore (restored ▸ membership)
    exact valid.counted original isSnapshot

theorem AppendEntriesArgs.Valid.lasts {args : AppendEntriesArgs α} (valid : args.Valid s)
    (run : Run (Cluster.step cfg) allowed Cluster.init labels s)
    (steps : Steps cfg i s.net (s.servers i) act out) : args.Valid (s.update i out) where
  snapshot snapshot carried := by
    obtain ⟨ok, counted, isValid⟩ := valid.snapshot snapshot carried
    exact ⟨ok, counted, isValid.lasts run steps⟩
  entries sent carried := by
    obtain ⟨whole, isEnd, isValid⟩ := valid.entries sent carried
    exact ⟨whole, isEnd, isValid.lasts run steps⟩

theorem Builds.valid {me : Nat} {sv : Server α} {repl : Replicator α} {args : AppendEntriesArgs α}
    (builds : Builds me sv repl args) (valid : sv.logs.Valid s sv.term) : args.Valid s := by
  obtain ⟨snapshots, entries⟩ := builds.payload valid.sound
  constructor
  · intro snapshot carried
    have isSnapshot := snapshots snapshot carried
    rw [builds.term_eq]
    exact ⟨valid.sound.snapshot snapshot isSnapshot, valid.counted snapshot isSnapshot,
      valid.full.cut (Logs.compacted_front isSnapshot)⟩
  · intro sent carried
    obtain ⟨whole, front, isEnd⟩ := entries sent carried
    rw [builds.term_eq]
    exact ⟨whole, isEnd, valid.full.cut front⟩

/-- The log a step leaves in memory is valid. -/
theorem Server.Valid.edits (run : Run (Cluster.step cfg) allowed Cluster.init labels s)
    (one : s.OneLeader) (valid : (s.servers i).Valid s)
    (received : Received (fun _ args => args.Valid s) (s.servers i))
    (steps : Steps cfg i s.net (s.servers i) act out) :
    out.server.logs.Valid (s.update i out) out.server.term := by
  have onward := valid.memory.lasts run steps
  have sound := valid.memory.sound
  cases steps.edits with
  | kept isUp logs =>
      rw [logs]
      exact onward.later (steps.term_le isUp)
  | installed follows carried logs =>
      obtain ⟨ok, counted, isValid⟩ := (received _ _ follows.mem).snapshot _ carried
      rw [logs, follows.term]
      refine ⟨.followerInstallSnapshot _ ok, ?_, ?_⟩
      · rw [Logs.full_followerInstallSnapshot]
        exact isValid.lasts run steps
      · rintro _ ⟨⟩
        exact counted
  | @appended _ _ _ _ appended follows _ carried result =>
      obtain ⟨whole, isEnd, isValid⟩ := (received _ _ follows.mem).entries _ carried
      have appends := Logs.followerAppendEntries_appends sound.cursors result
      refine ⟨sound.appends appends, ?_, ?_⟩
      · cases appended with
        | true =>
            rw [sound.full_eq one.uniqueBranch valid.memory.full.onTree isEnd isValid.onTree
              appends, follows.term]
            exact isValid.lasts run steps
        | false =>
            rw [appends.logs_eq]
            exact onward.full.later (steps.term_le follows.isUp)
      · rw [appends.snapshot_eq]
        exact valid.memory.counted
  | pushed isUp pushed term loud =>
      obtain ⟨activated, isBranch⟩ := Cluster.leaderLog_of_loud run steps loud
      rw [← term] at activated isBranch
      have full := Logs.full_pushEntry pushed
      refine ⟨sound.pushEntry pushed,
        ⟨?_, ?_, sound.dense_pushEntry valid.memory.full.dense pushed⟩, ?_⟩
      · rw [full] at isBranch ⊢
        exact onward.full.onTree.snoc ⟨i, activated, isBranch⟩ List.prefix_rfl
      · rw [full]
        intro entry membership
        rcases List.mem_append.mp membership with earlier | isNew
        · exact Int.le_trans (onward.full.bounded entry earlier) (steps.term_le isUp)
        · rw [List.mem_singleton.mp isNew, term]
          exact steps.term_le isUp
      · rw [Logs.pushEntry_spec pushed]
        exact valid.memory.counted
  | taken isUp isNext taken =>
      have command := (Cluster.requested run i).event _ _ (by rw [isNext]; exact .head _)
      refine ⟨sound.takeSnapshot command taken, ?_,
        sound.counted_taken valid.memory.full.dense command taken⟩
      rw [Logs.full_takeSnapshot taken]
      exact onward.full.later (steps.term_le isUp)
  | committed isUp _ result =>
      refine ⟨sound.updateCommit result, ?_, ?_⟩
      · rw [Logs.full_updateCommit result]
        exact onward.full.later (steps.term_le isUp)
      · obtain ⟨commit, batch, -, -, -, logs, -⟩ := Logs.updateCommit_spec result
        rw [logs]
        exact valid.memory.counted
  | applied isUp isNext logs =>
      have compacted := (Cluster.cursorsOk run i).pending isUp (.inr (.inl ⟨_, .inr isNext⟩))
      rw [logs]
      exact ⟨sound.applied compacted _, onward.full.later (steps.term_le isUp),
        valid.memory.counted⟩
  | restored _ logs term =>
      rw [logs, term]
      exact valid.disk.lasts run steps

theorem Server.Valid.saves (valid : (s.servers i).Valid s)
    (run : Run (Cluster.step cfg) allowed Cluster.init labels s)
    (steps : Steps cfg i s.net (s.servers i) act out)
    (memory : out.server.logs.Valid (s.update i out) out.server.term) :
    out.server.persister.logs.Valid (s.update i out) out.server.persister.term := by
  cases steps.saves with
  | kept same => exact same ▸ valid.disk.lasts run steps
  | before isUp saved =>
      exact ((valid.memory.lasts run steps).later (steps.term_le isUp)).saved saved
  | after saved => exact memory.saved saved

end

/-- In a run in which the requests are sent as they were built, all logs and requests
are valid as long as no two servers have led in the same term. -/
theorem Cluster.valid {cfg : Config} {allowed : Cluster α → Label α → Prop}
    (intact : ∀ s label, allowed s label → copiesIntact s label)
    {labels : List (Label α)} {s : Cluster α} (run : Run (step cfg) allowed init labels s)
    (one : s.OneLeader) : (∀ i, (s.servers i).Valid s) ∧
      (∀ i, Received (fun _ args => args.Valid s) (s.servers i)) ∧
      ∀ caller dst args, .appendEntries caller dst args ∈ s.net → args.Valid s := by
  have invariant := served (fun _ s _ sv => s.OneLeader → sv.Valid s)
    (fun _ s _ _ args => s.OneLeader → args.Valid s) ?_ ?_ ?_ (fun _ _ _ _ _ _ => id)
    ?_ ?_ ?_ ?_ run
  · refine ⟨fun i => invariant.1 i one, fun i caller args received => ?_,
      fun caller dst args sent => ?_⟩
    · obtain ⟨repl, isValid⟩ := invariant.2.1 i caller args received
      exact isValid one
    · obtain ⟨repl, isValid⟩ := invariant.2.2 caller dst args sent
      exact isValid one
  · intro i _
    exact ⟨⟨Logs.empty_sound, .nil, by simp [Server.initial, Logs.empty]⟩,
      ⟨Logs.empty_sound, .nil,
        by simp [Server.initial, Persister.fresh, Persister.logs, Logs.empty]⟩⟩
  · intro labels s i act out j sv run steps valid one
    have before := valid one.earlier
    exact ⟨before.memory.lasts run steps, before.disk.lasts run steps⟩
  · intro labels s i act out j repl args run steps valid one
    exact (valid one.earlier).lasts run steps
  · intro labels s i act out run valid received _ steps one
    have before := valid one.earlier
    have memory := before.edits run one.earlier (fun caller args membership => ?_) steps
    · exact ⟨memory, before.saves run steps memory⟩
    · obtain ⟨repl, isValid⟩ := received caller args membership
      exact isValid one.earlier
  · intro labels s i number repl args _ valid _ _ _ builds one
    exact builds.valid (valid one).memory
  · intro labels s i number repl call _ _ _ _ _ _ valid one
    exact ⟨(valid one).snapshot, (valid one).entries⟩
  · intro labels s i number repl call ok found calling valid one
    have same : Replicator.copy (s.servers i) call = call.args :=
      intact s ⟨i, .call number⟩ ok repl found call calling
    rw [same]
    exact valid one

/-! ## Log matching -/

/-- The log a server has in memory and the one it has on disk. -/
def Server.HasLog (sv : Server α) (logs : Logs α) : Prop :=
  logs = sv.logs ∨ logs = sv.persister.logs

theorem Server.Valid.hasLog {s : Cluster α} {sv : Server α} (valid : sv.Valid s) {logs : Logs α}
    (has : sv.HasLog logs) : ∃ term, logs.Valid s term := by
  rcases has with rfl | rfl
  · exact ⟨_, valid.memory⟩
  · exact ⟨_, valid.disk⟩

/-- In every run in which requests are sent as they were built, saves are written as they were
begun and no two servers lead in the same term, logs that hold entries of the same term at an
index hold the same entries at all earlier indices. -/
theorem log_matching {cfg : Config} {labels : List (SavingStep α)} {s : Saving α}
    (run : Run (Saving.step cfg) (Saving.Intact copiesIntact) Saving.init labels s)
    (one : s.cluster.OneLeader) {i j : Nat} {logs logs' : Logs α}
    (has : (s.cluster.servers i).HasLog logs) (has' : (s.cluster.servers j).HasLog logs')
    {idx : Int} {last last' : LogEntry α}
    (found : logs.entryAt idx = some last) (found' : logs'.entryAt idx = some last')
    (sameTerm : last.term = last'.term) {earlier : Int} (atMost : earlier ≤ idx)
    {entry entry' : LogEntry α} (held : logs.entryAt earlier = some entry)
    (held' : logs'.entryAt earlier = some entry') : entry = entry' := by
  obtain ⟨_, run⟩ := Saving.cluster_run run
  have valid := Cluster.valid (fun _ _ => id) run one
  obtain ⟨_, left⟩ := (valid.1 i).hasLog has
  obtain ⟨_, right⟩ := (valid.1 j).hasLog has'
  obtain ⟨-, atIdx⟩ := left.sound.index?_entries found
  obtain ⟨-, atIdx'⟩ := right.sound.index?_entries found'
  obtain ⟨-, atEarlier⟩ := left.sound.index?_entries held
  obtain ⟨-, atEarlier'⟩ := right.sound.index?_entries held'
  have same := left.full.onTree.getElem?_eq one.uniqueBranch right.full.onTree
    (congrArg (Option.map LogEntry.term) atIdx) (by rw [atIdx', Option.map_some, sameTerm])
    (Int.toNat_le_toNat atMost)
  rw [atEarlier, atEarlier', Option.some.injEq] at same
  exact same

/-- The no-op and the first command of the leader of term 1. -/
def firstNoop : LogEntry Nat := { commandIndex := -1, term := 1, content := none }

def firstCommand : LogEntry Nat := { commandIndex := 1, term := 1, content := some 7 }

/-- The leader takes a snapshot of its first two entries and sends it with two more commands to
server 2, whose applier delivers it and saves. -/
def snapshotSaved : List (SavingStep Nat) :=
  (firstCommit ++
    Label.all 0 [.start (some 8), .pop, .exec, .exec, .snapshotCall 1 [1], .snapshotPush, .pop,
      .exec, .repl 1, .repl 1, .repl 1, .repl 1, .call 1] ++
    Label.all 2 [.pop, .receive 7, .pop, .exec] ++
    Label.all 0 [.receive 8, .repl 1, .repl 1, .repl 1, .repl 1, .repl 1, .call 1] ++
    Label.all 2 [.receive 9, .pop, .exec, .exec, .exec] ++
    Label.all 0 [.receive 10, .start (some 9), .pop, .exec, .exec, .repl 1, .repl 1, .repl 1,
      .call 1] ++
    Label.all 2 [.receive 11, .pop, .exec, .exec, .applier, .applier, .applier]).map .act ++
  [.written 2]

/-- The two commands behind the snapshot. -/
def secondCommand : LogEntry Nat := { commandIndex := 2, term := 1, content := some 8 }

def thirdCommand : LogEntry Nat := { commandIndex := 3, term := 1, content := some 9 }

theorem log_matching_snapshotSaved :
    ∃ s, Run (Saving.step (.doubling 3)) (Saving.Intact copiesIntact) Saving.init snapshotSaved s ∧
      s.cluster.OneLeader ∧ (s.cluster.servers 0).logs.entryAt 3 = some thirdCommand ∧
      (s.cluster.servers 2).persister.logs.entryAt 3 = some thirdCommand ∧
      ∀ entry entry', (s.cluster.servers 0).logs.entryAt 2 = some entry →
        (s.cluster.servers 2).persister.logs.entryAt 2 = some entry' → entry = entry' := by
  obtain ⟨s, run, one, found, onDisk⟩ : ∃ s, Run (Saving.step (.doubling 3))
      (Saving.Intact copiesIntact) Saving.init snapshotSaved s ∧ s.cluster.OneLeader ∧
      (s.cluster.servers 0).logs.entryAt 3 = some thirdCommand ∧
      (s.cluster.servers 2).persister.logs.entryAt 3 = some thirdCommand :=
    Run.exists_of_runSteps (by decide +kernel)
  exact ⟨s, run, one, found, onDisk, fun entry entry' held held' =>
    log_matching run one (.inl rfl) (.inr rfl) found onDisk rfl (by decide) held held'⟩

/-- The leader of term 1 has built requests for the servers 3 and 4 and sent the
first one.  It is deposed by the leader of term 2, which knows neither of its
entries and replaces them by its own no-op.  Then the second request is sent. -/
def rewrittenInFlight : List (Label Nat) :=
  firstElection ++
  Label.all 1 [.pop, .receive 0, .pop, .exec] ++
  Label.all 2 [.pop, .receive 1, .pop, .exec] ++
  Label.all 5 [.pop, .receive 4, .pop, .exec] ++
  Label.all 0 [.receive 6, .receive 7, .receive 8, .pop, .pop, .pop, .exec, .pop, .repl 2, .repl 3,
    .exec, .start (some 7), .pop, .exec, .exec, .repl 2, .repl 2, .repl 2, .repl 2, .repl 3,
    .repl 3, .repl 3, .repl 3, .call 2] ++
  Label.all 3 [.pop, .receive 9, .pop, .exec, .exec, .exec] ++
  Label.all 1 [.heartBeat, .pop, .exec, .pop] ++
  Label.all 2 [.receive 12, .pop, .exec] ++
  Label.all 5 [.receive 15, .pop, .exec] ++
  Label.all 6 [.pop, .receive 16, .pop, .exec] ++
  Label.all 1 [.receive 17, .receive 18, .receive 19, .pop, .pop, .pop, .exec, .pop, .repl 0, .exec,
    .repl 0, .repl 0, .repl 0, .repl 0, .call 0] ++
  Label.all 0 [.receive 20, .pop, .exec, .exec, .exec, .pop] ++
  Label.all 1 [.receive 21, .repl 0, .call 0] ++
  Label.all 0 [.receive 22, .pop, .exec, .exec, .exec, .call 3] ++
  Label.all 4 [.pop, .receive 24, .pop]

/-- The array behind the second request has been written to: server 4 gets the
command of term 1 behind the no-op of term 2. -/
theorem logs_disagree_before_match :
    ∃ s, Run (Cluster.step (.doubling 7)) buildsInOffice Cluster.init rewrittenInFlight s ∧
      s.OneLeader ∧
      (s.servers 3).logs.entryAt 1 = some firstCommand ∧
      (s.servers 4).logs.entryAt 1 = some firstCommand ∧
      (s.servers 3).logs.entryAt 0 = some firstNoop ∧
      (s.servers 4).logs.entryAt 0 = some { firstNoop with term := 2 } :=
  Run.exists_of_runSteps (by decide +kernel)

end GoLab.Raft
