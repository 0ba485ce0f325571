import GoLab.Raft.LogMatching

/-!
# Command indices

A leader counts the commands of its log to give a new one its index, and every
server keeps the number of no-ops of its log beside it.  Both agree with the log,
compacted entries included, so `Start` returns the index under which the command is
applied.
-/

namespace GoLab.Raft

variable {α : Type}
variable {cfg : Config} {me : Nat} {allowed : Cluster α → Label α → Prop} {labels : List (Label α)}
  {s : Cluster α} {sv : Server α} {out : Out α} {act : Act α} {net : List (Msg α)}

/-- The indices of the commands of a list, in order. -/
def commandIndices (entries : List (LogEntry α)) : List Int :=
  (entries.filter fun entry => !entry.isNoop).map LogEntry.commandIndex

/-- The `n` numbers that follow `start`. -/
def numbersAfter (start : Int) : Nat → List Int
  | 0 => []
  | n + 1 => (start + 1) :: numbersAfter (start + 1) n

/-- The commands behind the front of a log are numbered on from it. -/
theorem Dense.commandIndices_eq {front back : List (LogEntry α)} (dense : Dense (front ++ back)) :
    ∃ n, commandIndices back = numbersAfter (front.length - noops front) n := by
  induction back generalizing front with
  | nil => exact ⟨0, rfl⟩
  | cons entry rest ih =>
      have here := dense front.length entry (by simp)
      have shifted : Dense ((front ++ [entry]) ++ rest) := by simpa using dense
      obtain ⟨n, onward⟩ := ih shifted
      simp only [List.length_append, List.length_singleton, Logs.noops_append, Logs.noops_cons,
        Logs.noops_nil] at onward
      by_cases noop : entry.commandIndex = noopIndex
      · refine ⟨n, ?_⟩
        have same : commandIndices (entry :: rest) = commandIndices rest := by
          simp [commandIndices, LogEntry.isNoop, noop]
        rw [same, onward, if_pos noop]
        congr 1
        omega
      · refine ⟨n + 1, ?_⟩
        have next : commandIndices (entry :: rest) = entry.commandIndex :: commandIndices rest := by
          simp [commandIndices, LogEntry.isNoop, noop]
        have index := here noop
        rw [List.take_left] at index
        rw [next, onward, if_neg noop, index, numbersAfter]
        congr 2 <;> omega

variable {log : List (LogEntry α)} {entry entry' : LogEntry α}

/-- Command indices increase. -/
theorem Dense.commandIndex_lt (dense : Dense log) {k k' : Nat} (found : log[k]? = some entry)
    (found' : log[k']? = some entry') (command : entry.commandIndex ≠ noopIndex)
    (command' : entry'.commandIndex ≠ noopIndex) (before : k < k') :
    entry.commandIndex < entry'.commandIndex := by
  obtain ⟨gap, rfl⟩ := Nat.exists_eq_add_of_le before
  have between := Logs.noops_le_length ((log.drop (k + 1)).take gap)
  have length := List.length_take_le gap (log.drop (k + 1))
  have upTo : noops (log.take (k + 1 + gap)) =
      noops (log.take k) + noops ((log.drop (k + 1)).take gap) := by
    rw [List.take_add, List.take_add_one, found, Logs.noops_append, Logs.noops_append]
    simp [noops, LogEntry.isNoop, command]
  rw [dense k entry found command, dense _ entry' found' command', upTo]
  omega

/-- The command index of an entry tells its place in the log. -/
theorem Dense.place_eq (dense : Dense log) {k k' : Nat} (found : log[k]? = some entry)
    (found' : log[k']? = some entry') (command : entry.commandIndex ≠ noopIndex)
    (same : entry.commandIndex = entry'.commandIndex) :
    k = k' := by
  rcases Nat.lt_trichotomy k k' with before | isSame | after
  · have increases := dense.commandIndex_lt found found' command (same ▸ command) before
    omega
  · exact isSame
  · have increases := dense.commandIndex_lt found' found (same ▸ command) command after
    omega

theorem Dense.entry_eq (dense : Dense log) (inside : entry ∈ log) (inside' : entry' ∈ log)
    (command : entry.commandIndex ≠ noopIndex) (same : entry.commandIndex = entry'.commandIndex) :
    entry = entry' := by
  obtain ⟨k, found⟩ := List.mem_iff_getElem?.mp inside
  obtain ⟨k', found'⟩ := List.mem_iff_getElem?.mp inside'
  cases dense.place_eq found found' command same
  exact Option.some.inj (found.symm.trans found')

/-! ## The index `Start` returns -/

/-- The leader of the term has put a command with this command index at this place. -/
def Placed (obs : List (Obs α)) (me : Nat) (term commandIndex logIndex : Int) : Prop :=
  Activated obs me term ∧ ∃ entry, 0 ≤ logIndex ∧
    (leaderLog me term obs)[logIndex.toNat]? = some entry ∧ entry.commandIndex = commandIndex ∧
    entry.term = term

section

variable {i : Nat}

theorem Placed.lasts (run : Run (Cluster.step cfg) allowed Cluster.init labels s)
    (steps : Steps cfg i s.net (s.servers i) act out) {term commandIndex logIndex : Int}
    (placed : Placed s.obs me term commandIndex logIndex) :
    Placed (s.update i out).obs me term commandIndex logIndex := by
  obtain ⟨activated, entry, nonneg, found, index⟩ := placed
  exact ⟨activated.append, entry, nonneg,
    getElem?_extend (Cluster.leaderLog_grows run steps activated) found, index⟩

/-- The answer to a `Start` that has appended its command. -/
theorem Placed.of_push (run : Run (Cluster.step cfg) allowed Cluster.init labels s)
    (sound : (s.servers i).logs.Sound) (steps : Steps cfg i s.net (s.servers i) act out)
    (loud : ¬ Quiet out.obs) {commandIndex logIndex : Int}
    (due : .replyStart commandIndex logIndex ∈ out.server.todo) :
    Placed (s.update i out).obs i out.server.term commandIndex logIndex ∧
      leaderLog i out.server.term (s.update i out).obs = out.server.logs.full := by
  obtain ⟨activated, grown⟩ := Cluster.leaderLog_of_loud run steps loud
  cases Cluster.leads run steps with
  | kept quiet => exact (loud quiet).elim
  | activated _ _ _ _ _ _ todo => simp [todo] at due
  | pushed _ _ _ _ pushed todo term =>
      simp only [todo, List.mem_cons, reduceCtorEq, Op.replyStart.injEq, List.not_mem_nil, or_false,
        false_or] at due
      obtain ⟨rfl, rfl⟩ := due
      have length := sound.length_eq
      have last : out.server.logs.lli = (s.servers i).logs.lli + 1 := by
        rw [Logs.pushEntry_spec pushed]
      obtain ⟨entry, found, index⟩ : ∃ entry, out.server.logs.full[out.server.logs.lli.toNat]? =
          some entry ∧ entry.commandIndex = commandIndex ∧ entry.term = (s.servers i).term := by
        rw [Logs.full_pushEntry pushed]
        exact ⟨_, getElem?_snoc.mpr (.inr ⟨by omega, rfl⟩), rfl, rfl⟩
      rw [term]
      exact ⟨⟨activated, entry, by omega, by rw [grown, found], index⟩, grown⟩

end

/-- The log stays as it is while an answer to `Start` is under way. -/
theorem Steps.replyStart_mem (steps : Steps cfg me net sv act out) (isUp : out.server.up = true)
    (quiet : Quiet out.obs) {commandIndex logIndex : Int}
    (due : .replyStart commandIndex logIndex ∈ out.server.todo) :
    sv.up = true ∧ .replyStart commandIndex logIndex ∈ sv.todo ∧ out.server.term = sv.term ∧
      out.server.roleId = sv.roleId ∧ out.server.logs.full = sv.logs.full := by
  cases steps with
  | popped up idle _ handles =>
      cases handles with
      | started => exact (quiet.unpushed _ _ (.head _)).elim
      | _ => simp_all
  | executed up next executes =>
      cases executes with
      | committed result =>
          simp only [List.mem_cons, reduceCtorEq, false_or] at due
          exact ⟨up, by rw [next]; exact .tail _ due, rfl, rfl, Logs.full_updateCommit result⟩
      | _ => simp_all
  | applied up applies => cases applies <;> exact ⟨up, due, rfl, rfl, rfl⟩
  | crashed => cases isUp
  | restarted _ made =>
      obtain ⟨applier, -, -, rfl⟩ := make_eq_some made
      cases due
  | _ => exact ⟨‹_›, due, rfl, rfl, rfl⟩

/-- An answer to `Start` is recorded when it is given. -/
theorem Steps.started_mem (steps : Steps cfg me net sv act out) {server : Nat}
    {commandIndex term logIndex : Int}
    (started : .started server commandIndex term logIndex ∈ out.obs) :
    sv.up = true ∧ server = me ∧ term = sv.term ∧ ∃ rest role,
      sv.todo = .replyStart commandIndex logIndex :: rest ∧
        out.server = { sv with todo := rest, role } := by
  cases steps with
  | popped _ _ _ handles =>
      cases handles with
      | _ => simp at started
  | executed up next executes =>
      cases executes with
      | started =>
          simp only [List.mem_singleton, Obs.started.injEq] at started
          obtain ⟨rfl, rfl, rfl, rfl⟩ := started
          exact ⟨up, rfl, rfl, _, _, next, rfl⟩
      | _ => simp at started
  | applied _ applies => cases applies <;> simp at started
  | restarted => simp at started
  | _ => simp at started

/-- The place and the index `Start` answers with are those of the leader's log. -/
structure Cluster.StartsPlaced (s : Cluster α) : Prop where
  due : ∀ i commandIndex logIndex, (s.servers i).up = true →
    .replyStart commandIndex logIndex ∈ (s.servers i).todo →
    Placed s.obs i (s.servers i).term commandIndex logIndex ∧
      leaderLog i (s.servers i).term s.obs = (s.servers i).logs.full
  given : ∀ i commandIndex term logIndex, .started i commandIndex term logIndex ∈ s.obs →
    Placed s.obs i term commandIndex logIndex

theorem Cluster.placed (run : Run (step cfg) allowed init labels s) : s.StartsPlaced := by
  refine Run.invariant (fun _ s => s.StartsPlaced) ?_ ?_ run
  · exact ⟨by simp [init, Server.initial], by simp [init]⟩
  · rintro labels s label s' earlier ⟨due, given⟩ ok taken
    obtain ⟨out, -, steps, rfl⟩ := step_steps taken
    constructor
    · intro i commandIndex logIndex
      by_cases same : i = label.server
      · subst same
        simp only [update, if_pos]
        intro isUp isDue
        by_cases quiet : Quiet out.obs
        · obtain ⟨up, wasDue, term, -, full⟩ := steps.replyStart_mem isUp quiet isDue
          obtain ⟨placed, isLog⟩ := due _ _ _ up wasDue
          rw [term, full, quiet.leaderLog_eq]
          exact ⟨placed.lasts earlier steps, isLog⟩
        · exact Placed.of_push earlier (sound earlier _).memory steps quiet isDue
      · simp only [update, if_neg same]
        intro isUp isDue
        obtain ⟨placed, isLog⟩ := due i _ _ isUp isDue
        refine ⟨placed.lasts earlier steps, ?_⟩
        have unchanged := leaderLog_history (s.update label.server out) i (s.servers i).term
        rw [history_update_other steps same, leaderLog_history] at unchanged
        rw [← isLog, unchanged]
        rfl
    · intro i commandIndex term logIndex started
      rcases List.mem_append.mp started with isNew | wasGiven
      · obtain ⟨up, rfl, rfl, rest, role, next, -⟩ := steps.started_mem isNew
        exact (due _ _ _ up (by rw [next]; exact .head _)).1.lasts earlier steps
      · exact (given _ _ _ _ wasGiven).lasts earlier steps

/-! ## Counting -/

/-- The fields of a snapshot agree with the no-ops it stands for. -/
structure Snapshot.Counts (snapshot : Snapshot α) : Prop where
  length : (snapshot.compacted.length : Int) = snapshot.lastIncludeIndex + 1
  noopCount : snapshot.noopCount = noops snapshot.compacted
  cmdIndex : snapshot.lastIncludeCmdIndex = snapshot.lastIncludeIndex + 1 - snapshot.noopCount

/-- The command indices and the counters of a log agree with the no-ops in it. -/
structure Logs.Counts (logs : Logs α) : Prop where
  length : (logs.full.length : Int) = logs.lli + 1
  commandIndex : ∀ idx entry, logs.entryAt idx = some entry → entry.commandIndex ≠ noopIndex →
    entry.commandIndex = idx + 1 - noops (logs.full.take idx.toNat)
  noopCount : logs.noopCount = noops logs.full
  snapshot : ∀ snapshot ∈ logs.snapshot, snapshot.Counts
  order : ∃ n, commandIndices logs.full = numbersAfter 0 n

theorem Snapshot.Ok.counts {snapshot : Snapshot α} (ok : snapshot.Ok) (counted : snapshot.Counted) :
    snapshot.Counts :=
  ⟨ok.length, ok.noopCount, counted⟩

theorem Logs.Valid.counts {term : Int} {logs : Logs α} (valid : logs.Valid s term) :
    logs.Counts where
  length := valid.sound.length_eq
  commandIndex idx entry found command := by
    obtain ⟨nonneg, isEntry⟩ := valid.sound.index?_entries found
    rw [valid.full.dense idx.toNat entry isEntry command, Int.toNat_of_nonneg nonneg]
  noopCount := valid.sound.noopCount
  snapshot snapshot isSnapshot :=
    (valid.sound.snapshot snapshot isSnapshot).counts (valid.counted snapshot isSnapshot)
  order := @Dense.commandIndices_eq α [] logs.full valid.full.dense

/-! ## What is applied -/

/-- The processor hands batches of entries to the applier when it commits them only. -/
theorem Cluster.apply_snapshot (run : Run (step cfg) allowed init labels s) {i : Nat}
    (up : (s.servers i).up = true) {item : ApplyEntry α} (due : .apply item ∈ (s.servers i).todo) :
    ∃ snapshot, item = .snapshot snapshot := by
  refine local_invariant (fun _ sv _ => sv.up = true → ∀ item, .apply item ∈ sv.todo →
    ∃ snapshot, item = .snapshot snapshot) ?_ ?_ run i up item due
  · simp [Server.initial]
  · intro _ s i act out _ before _ steps isUp item due
    cases steps with
    | popped up idle _ handles =>
        cases handles with
        | installed =>
            simp only [List.mem_cons, Op.apply.injEq, reduceCtorEq, List.not_mem_nil,
              or_false] at due
            exact ⟨_, due⟩
        | _ => simp_all
    | executed up next executes => 
        have before := before up item
        cases executes <;> simp_all
    | applied up applies => cases applies <;> exact before up item due
    | crashed => cases isUp
    | restarted _ made =>
        obtain ⟨applier, -, -, rfl⟩ := make_eq_some made
        cases due
    | _ => exact before ‹_› item due

variable {batch : List (LogEntry α)}

/-- A batch handed to the applier is a part of the log in memory or on disk. -/
theorem Steps.queued_mem (steps : Steps cfg me net sv act out) {server : Nat} {lai : Int}
    (queued : .queued server (.log batch lai) ∈ out.obs) :
    (sv.up = true ∧ .apply (.log batch lai) ∈ sv.todo) ∨
      ∃ logs lo hi, sv.HasLog logs ∧ slice? logs.entries lo hi = some batch := by
  cases steps with
  | popped _ _ _ handles =>
      cases handles with
      | _ => simp at queued
  | executed up next executes =>
      cases executes with
      | queued =>
          simp only [List.mem_singleton, Obs.queued.injEq] at queued
          obtain ⟨rfl, rfl⟩ := queued
          exact .inl ⟨up, by simp [next]⟩
      | committed result =>
          obtain ⟨commit, _, -, -, window, -, rfl⟩ := Logs.updateCommit_spec result
          simp only [List.mem_singleton, Obs.queued.injEq, ApplyEntry.log.injEq] at queued
          obtain ⟨rfl, rfl, rfl⟩ := queued
          exact .inr ⟨sv.logs, _, _, .inl rfl, window⟩
      | _ => simp at queued
  | applied _ applies => cases applies <;> simp at queued
  | restarted _ made =>
      obtain ⟨applier, -, isUnfinished, rfl⟩ := make_eq_some made
      simp only [List.mem_append, List.mem_map, List.mem_reverse, List.mem_singleton, reduceCtorEq,
        or_false, Obs.queued.injEq] at queued
      obtain ⟨_, membership, -, rfl⟩ := queued
      obtain ⟨-, window⟩ := batch_of_mem_unfinished isUnfinished membership
      exact .inr ⟨sv.persister.logs, _, _, .inr rfl, window⟩
  | _ => simp at queued

theorem Logs.Valid.consecutive {term : Int} {logs : Logs α} (valid : logs.Valid s term)
    {lo hi : Int} (window : slice? logs.entries lo hi = some batch) :
    ∃ start n, commandIndices batch = numbersAfter start n := by
  rw [slice?_eq_some] at window
  obtain ⟨-, rfl⟩ := window
  have front : (logs.compacted ++ logs.entries.take lo.toNat) ++
      (logs.entries.drop lo.toNat).take (hi - lo).toNat <+: logs.full := by
    unfold Logs.full
    rw [List.append_assoc, List.prefix_append_right_inj, ← List.take_add]
    exact List.take_prefix ..
  exact ⟨_, (valid.full.dense.cut front).commandIndices_eq⟩

/-- The commands of every batch handed to the applier are numbered one by one. -/
theorem Cluster.consecutive (intact : ∀ s label, allowed s label → copiesIntact s label)
    (run : Run (step cfg) allowed init labels s) (one : s.OneLeader) {i : Nat} {lai : Int}
    (queued : .queued i (.log batch lai) ∈ s.obs) :
    ∃ start n, commandIndices batch = numbersAfter start n := by
  revert one queued
  refine Run.invariant (fun _ s => s.OneLeader → .queued i (.log batch lai) ∈ s.obs →
    ∃ start n, commandIndices batch = numbersAfter start n) ?_ ?_ run
  · simp [init]
  · intro labels s label s' earlier before ok taken one queued
    obtain ⟨out, -, steps, rfl⟩ := step_steps taken
    rcases List.mem_append.mp queued with isNew | wasQueued
    · rcases steps.queued_mem isNew with ⟨up, due⟩ | ⟨logs, lo, hi, has, window⟩
      · obtain ⟨snapshot, impossible⟩ := apply_snapshot earlier up due
        cases impossible
      · obtain ⟨_, isValid⟩ := ((valid intact earlier one.earlier).1 _).hasLog has
        exact isValid.consecutive window
    · exact before one.earlier wasQueued

/-! ## The theorem -/

/-- In every run in which requests are sent as they were built, saves are written as they were
begun and no two servers lead in the same term: all logs and all snapshots count their commands
and no-ops right, a command is found under the index `Start` returned for it, and the commands
handed to the applier are numbered one by one. -/
theorem commands_counted {cfg : Config} {labels : List (SavingStep α)} {s : Saving α}
    (run : Run (Saving.step cfg) (Saving.Intact copiesIntact) Saving.init labels s)
    (one : s.cluster.OneLeader) :
    (∀ i logs, (s.cluster.servers i).HasLog logs → logs.Counts) ∧
    (∀ caller dst args, .appendEntries caller dst args ∈ s.cluster.net →
      ∀ snapshot ∈ args.snapshot, snapshot.Counts) ∧
    (∀ i commandIndex term logIndex, .started i commandIndex term logIndex ∈ s.cluster.obs →
      ∀ j logs entry, (s.cluster.servers j).HasLog logs → logs.entryAt logIndex = some entry →
        entry.term = term → entry.commandIndex = commandIndex) ∧
    ∀ i batch lai, .queued i (.log batch lai) ∈ s.cluster.obs →
      ∃ start n, commandIndices batch = numbersAfter start n := by
  obtain ⟨_, run⟩ := Saving.cluster_run run
  have valid := Cluster.valid (fun _ _ => id) run one
  refine ⟨fun i logs has => ?_, ?_, ?_, ?_⟩
  · obtain ⟨_, isValid⟩ := (valid.1 i).hasLog has
    exact isValid.counts
  · intro caller dst args sent snapshot carried
    obtain ⟨ok, counted, -⟩ := (valid.2.2 caller dst args sent).snapshot snapshot carried
    exact ok.counts counted
  · rintro i commandIndex _ logIndex started j logs entry has found rfl
    obtain ⟨activated, placed, nonneg, isPlaced, rfl, -⟩ :=
      (Cluster.placed run).given i _ _ _ started
    obtain ⟨_, logsValid⟩ := (valid.1 j).hasLog has
    obtain ⟨-, isEntry⟩ := logsValid.sound.index?_entries found
    obtain ⟨whole, isBranch, onBranch⟩ := logsValid.full.onTree _ entry isEntry
    cases one.uniqueBranch _ _ _ isBranch ⟨i, activated, rfl⟩
    have onTake : (logs.full.take (logIndex.toNat + 1))[logIndex.toNat]? = some entry := by
      rw [List.getElem?_take_of_lt (Nat.lt_succ_self _), isEntry]
    have same := getElem?_extend onBranch onTake
    rw [isPlaced, Option.some.injEq] at same
    rw [same]
  · intro i batch lai queued
    exact Cluster.consecutive (fun _ _ => id) run one queued

theorem commands_counted_snapshotSaved :
    ∃ s, Run (Saving.step (.doubling 3)) (Saving.Intact copiesIntact) Saving.init snapshotSaved s ∧
      s.cluster.OneLeader ∧ .started 0 3 1 3 ∈ s.cluster.obs ∧
      (s.cluster.servers 2).persister.logs.entryAt 3 = some thirdCommand ∧
      (s.cluster.servers 2).persister.logs.Counts ∧ thirdCommand.commandIndex = 3 := by
  obtain ⟨s, run, one, started, found⟩ : ∃ s, Run (Saving.step (.doubling 3))
      (Saving.Intact copiesIntact) Saving.init snapshotSaved s ∧ s.cluster.OneLeader ∧
      .started 0 3 1 3 ∈ s.cluster.obs ∧
      (s.cluster.servers 2).persister.logs.entryAt 3 = some thirdCommand :=
    Run.exists_of_runSteps (by decide +kernel)
  have counted := commands_counted run one
  exact ⟨s, run, one, started, found, counted.1 2 _ (.inr rfl),
    counted.2.2.1 0 3 1 3 started 2 _ _ (.inr rfl) found rfl⟩

/-- The leader of term 1 has appended two commands and built a request for server 4.
The leader of term 2, which has its no-op, puts its own no-op where the first command
was.  Then the request is sent. -/
def commandReplaced : List (Label Nat) :=
  firstElection ++
  Label.all 1 [.pop, .receive 0, .pop, .exec] ++
  Label.all 2 [.pop, .receive 1, .pop, .exec] ++
  Label.all 0 [.receive 4, .receive 5, .pop, .pop, .exec, .pop, .repl 0, .repl 3, .exec, .repl 0,
    .repl 0, .repl 0, .repl 0, .call 0] ++
  Label.all 1 [.receive 6, .pop, .exec, .exec, .exec] ++
  Label.all 0 [.start (some 7), .pop, .exec, .exec, .start (some 8), .pop, .exec, .exec, .repl 3,
    .repl 3, .repl 3, .repl 3] ++
  Label.all 1 [.heartBeat, .pop, .exec, .pop] ++
  Label.all 2 [.receive 9, .pop, .exec] ++
  Label.all 3 [.pop, .receive 10, .pop, .exec] ++
  Label.all 1 [.receive 12, .receive 13, .pop, .pop, .exec, .pop, .exec, .repl 0, .repl 0, .repl 0,
    .repl 0, .call 0] ++
  Label.all 0 [.receive 14, .pop, .exec, .exec, .exec, .pop] ++
  Label.all 1 [.receive 15, .repl 0, .call 0] ++
  Label.all 0 [.receive 16, .pop, .exec] ++
  Label.all 1 [.receive 17, .repl 0, .repl 0, .repl 0, .call 0] ++
  Label.all 0 [.receive 18, .pop, .exec] ++
  Label.all 1 [.receive 19, .repl 0, .repl 0, .repl 0, .repl 0, .repl 0, .call 0] ++
  Label.all 0 [.receive 20, .pop, .exec, .exec, .exec, .call 3] ++
  Label.all 4 [.pop, .receive 22, .pop]

/-- Server 4 has the second command behind two no-ops, with the command index 2. -/
theorem command_miscounted :
    ∃ s, Run (Cluster.step (.doubling 5)) buildsInOffice Cluster.init commandReplaced s ∧
      s.OneLeader ∧
      (s.servers 4).logs.entryAt 2 = some secondCommand ∧ ¬ (s.servers 4).logs.Counts := by
  obtain ⟨s, run, one, found, twoNoops⟩ : ∃ s, Run (Cluster.step (.doubling 5)) buildsInOffice
      Cluster.init commandReplaced s ∧ s.OneLeader ∧
      (s.servers 4).logs.entryAt 2 = some secondCommand ∧
      noops ((s.servers 4).logs.full.take 2) = 2 :=
    Run.exists_of_runSteps (by decide +kernel)
  refine ⟨s, run, one, found, fun counts => ?_⟩
  have index := counts.commandIndex 2 _ found (by decide)
  simp [twoNoops, secondCommand] at index

end GoLab.Raft
