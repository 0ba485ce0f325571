import GoLab.Raft.Cursors

/-!
# What the applier is given after a restart

`newLogs` decides from `LAI`, `LCI` and the persisted snapshot what to queue
first; `updateCommit` and `followerInstallSnapshot` queue the rest.  `covered`
follows the queue: how far it reaches from the snapshot the server restarted
from, as long as every batch starts where the one before ends.
-/

namespace GoLab.Raft

variable {α : Type}

/-- How far the items queued since the last start reach, by the history of a
server, latest first; `none` when a batch leaves a gap or overlaps. -/
def covered : List (Obs α) → Option Int
  | [] => some (-1)
  | .restarted _ base :: _ => some base
  | .queued _ (.log batch lai) :: rest =>
      (covered rest).bind fun reached =>
        if lai - batch.length = reached then some lai else none
  | .queued _ (.snapshot snapshot) :: rest =>
      (covered rest).map fun _ => snapshot.lastIncludeIndex
  | _ :: rest => covered rest

/-- The items queued since the last start leave no gap and, when the processor is
between two events, reach the commit index. -/
def NoGap (sv : Server α) (history : List (Obs α)) : Prop :=
  ∃ reached ∈ covered history, sv.todo = [] → sv.logs.lci ≤ reached

instance [DecidableEq α] (sv : Server α) (history : List (Obs α)) : Decidable (NoGap sv history) :=
  inferInstanceAs (Decidable (∃ reached ∈ covered history, _))

/-- The persisted cursors from which `newLogs` queues all that was committed: the
service has been given exactly the persisted snapshot, or nothing past it was
committed. -/
def Persister.Complete (persister : Persister α) : Prop :=
  persister.logs.lai = persister.base ∨ persister.logs.lci ≤ persister.base

instance (persister : Persister α) : Decidable persister.Complete :=
  inferInstanceAs (Decidable (_ ∨ _))

/-- Servers restart from complete persisted states only. -/
def restartsComplete (s : Cluster α) (label : Label α) : Prop :=
  match label.act with
  | .restart => (s.servers label.server).persister.Complete
  | _ => True

instance (s : Cluster α) (label : Label α) : Decidable (restartsComplete s label) := by
  delta restartsComplete
  rcases label.act <;> infer_instance

/-- The queue has reached the commit index; past it, only a compacted prefix. -/
def Server.ReachedBy (sv : Server α) (reached : Int) : Prop :=
  sv.logs.lci = reached ∨ (sv.logs.lci < reached ∧ reached < sv.logs.offset)

/-- What the queue has reached while a server runs: the commit index, unless a
snapshot that was installed is yet to be queued. -/
inductive Covered (sv : Server α) (history : List (Obs α)) : Prop where
  | settled {reached : Int} (upTo : covered history = some reached)
      (reaches : sv.ReachedBy reached) (nothing : ∀ item, .apply item ∉ sv.todo)
  | installing {reached : Int} {snapshot : Snapshot α} {rest : List (Op α)}
      (upTo : covered history = some reached)
      (next : sv.todo = .apply (.snapshot snapshot) :: rest)
      (commit : snapshot.lastIncludeIndex = sv.logs.lci) (nothing : ∀ item, .apply item ∉ rest)

theorem Persister.base_eq {persister : Persister α} {snapshot : Snapshot α}
    (isSnapshot : persister.logs.snapshot = some snapshot) :
    persister.base = snapshot.lastIncludeIndex := by
  simp [base, isSnapshot]

theorem Persister.offset_eq {persister : Persister α} (cursors : persister.logs.Ok) :
    persister.logs.offset = persister.base + 1 := by
  unfold base
  cases isSnapshot : persister.logs.snapshot with
  | none => simp [(cursors.fresh isSnapshot).1]
  | some snapshot => exact cursors.base snapshot isSnapshot

theorem covered_raiseObs (me : Nat) (sv : Server α) (term : Int) (history : List (Obs α)) :
    covered (sv.raiseObs me term ++ history) = covered history := by
  unfold Server.raiseObs
  split <;> rfl

namespace Covered

variable {sv sv' : Server α} {history history' : List (Obs α)}

theorem settled_of_idle (ok : Covered sv history) (idle : sv.todo = []) :
    ∃ reached, covered history = some reached ∧ sv.ReachedBy reached := by
  cases ok with
  | settled upTo reaches => exact ⟨_, upTo, reaches⟩
  | installing _ next => simp [idle] at next

/-- A handler is started that queues nothing at once. -/
theorem next (ok : Covered sv history) (idle : sv.todo = [])
    (same : covered history' = covered history) (lci : sv'.logs.lci = sv.logs.lci)
    (offset : sv.logs.offset ≤ sv'.logs.offset) (nothing : ∀ item, .apply item ∉ sv'.todo) :
    Covered sv' history' := by
  obtain ⟨reached, upTo, reaches⟩ := ok.settled_of_idle idle
  refine .settled (same.trans upTo) ?_ nothing
  unfold Server.ReachedBy at reaches ⊢
  omega

theorem handles {cfg : Config} {me : Nat} {ev : Event α} {out : Out α} (ok : Covered sv history)
    (handles : Handles cfg me sv ev out) (idle : sv.todo = []) (cursors : sv.logs.Ok) :
    Covered out.server (out.obs ++ history) := by
  cases handles with
  | installed =>
      obtain ⟨reached, upTo, -⟩ := ok.settled_of_idle idle
      exact .installing ((covered_raiseObs ..).trans upTo) rfl rfl (by simp)
  | appended _ _ _ _ _ result =>
      have appends := Logs.followerAppendEntries_appends cursors result
      refine ok.next idle (covered_raiseObs ..) ?_ ?_ ?_
      · cases appends <;> rfl
      · cases appends <;> exact Int.le_refl _
      · intro item
        simp only [List.mem_append, List.mem_singleton, reduceCtorEq, or_false]
        split <;> split <;> simp
  | started _ _ pushed | becameLeader _ pushed =>
      rw [Logs.pushEntry_spec pushed]
      exact ok.next idle rfl rfl (Int.le_refl _) (by simp)
  | snapshotTaken _ taken =>
      obtain ⟨kept, _, _, _, -, -, -, -, rfl⟩ := Logs.takeSnapshot_spec taken
      exact ok.next idle rfl rfl (by simp [Server.persist]; omega) (by simp)
  | candidateHold | staleCandidate =>
      exact ok.next idle (covered_raiseObs ..) rfl (Int.le_refl _) (by simp)
  | counted =>
      refine ok.next idle rfl rfl (Int.le_refl _) ?_
      intro item
      dsimp only
      split <;> simp
  | _ => exact ok.next idle rfl rfl (Int.le_refl _) (by simp [idle])

section

variable {op : Op α} {rest : List (Op α)} (ok : Covered sv history) (next : sv.todo = op :: rest)
include ok next

/-- A handler that does not queue a snapshot next has nothing left to queue. -/
theorem settled_of_next (notApply : ∀ item, op ≠ .apply item) :
    (∃ reached, covered history = some reached ∧ sv.ReachedBy reached) ∧
      ∀ item, .apply item ∉ rest := by
  cases ok with
  | settled upTo reaches nothing =>
      refine ⟨⟨_, upTo, reaches⟩, fun item later => nothing item ?_⟩
      rw [next]
      exact .tail _ later
  | installing _ isNext =>
      rw [next] at isNext
      exact (notApply _ (List.cons.inj isNext).1).elim

/-- The processor goes on with a handler that queues nothing in this step. -/
theorem goOn (notApply : ∀ item, op ≠ .apply item) (same : covered history' = covered history)
    (logs : sv'.logs = sv.logs) (nothing : ∀ item, .apply item ∈ sv'.todo → .apply item ∈ rest) :
    Covered sv' history' := by
  obtain ⟨⟨reached, upTo, reaches⟩, later⟩ := ok.settled_of_next next notApply
  refine .settled (same.trans upTo) ?_ fun item membership => later item (nothing item membership)
  rwa [Server.ReachedBy, logs]

theorem executes {cfg : Config} {me : Nat} {out : Out α}
    (executes : Executes cfg me { sv with todo := rest } op out) :
    Covered out.server (out.obs ++ history) := by
  cases executes with
  | @queued item =>
      cases ok with
      | settled _ _ nothing => exact (nothing item (by simp [next])).elim
      | @installing _ snapshot _ upTo isNext commit nothing =>
          rw [next] at isNext
          simp only [List.cons.injEq, Op.apply.injEq] at isNext
          obtain ⟨rfl, rfl⟩ := isNext
          have reaches : covered (.queued me (.snapshot snapshot) :: history) =
              some snapshot.lastIncludeIndex := by
            simp [covered, upTo]
          exact .settled reaches (.inl commit.symm) nothing
  | @committed leaderCommit _ _ result =>
      obtain ⟨⟨reached, upTo, reaches⟩, nothing⟩ := ok.settled_of_next next nofun
      obtain ⟨commit, batch, larger, -, window, rfl, rfl⟩ := Logs.updateCommit_spec result
      obtain ⟨inside, -, length⟩ := length_of_slice? window
      dsimp only at inside length larger
      have start : commit - batch.length = reached := by
        rcases reaches with rfl | pastCommit
        · omega
        · omega
      have reaches : covered (.queued me (.log batch commit) :: history) = some commit := by
        simp [covered, upTo, start]
      exact .settled reaches (.inl rfl) (by simpa using nothing)
  | voteAnswered =>
      exact ok.goOn next nofun (by dsimp only; split <;> rfl) rfl fun _ => id
  | _ => exact ok.goOn next nofun rfl rfl (by simp)

end

/-- A step that leaves the queue, the cursors and the handler alone. -/
theorem frame (ok : Covered sv history) (same : covered history' = covered history)
    (lci : sv'.logs.lci = sv.logs.lci) (offset : sv'.logs.offset = sv.logs.offset)
    (todo : sv'.todo = sv.todo) : Covered sv' history' := by
  cases ok with
  | settled upTo reaches nothing =>
      refine .settled (same.trans upTo) ?_ (todo ▸ nothing)
      rwa [Server.ReachedBy, lci, offset]
  | installing upTo next commit nothing =>
      exact .installing (same.trans upTo) (todo.trans next) (commit.trans lci.symm) nothing

/-- What `newLogs` queues, when it misses nothing. -/
theorem make {persister : Persister α} {nextId me : Nat} (cursors : persister.logs.Ok)
    (complete : persister.Complete) (made : make persister nextId = some sv) :
    Covered sv (sv.applier.reverse.map (.queued me) ++ [.restarted me persister.base] ++
      history) := by
  obtain ⟨applier, -, queued, rfl⟩ := make_eq_some made
  have commit := cursors.commit
  unfold Persister.Complete at complete
  obtain ⟨snapshot, isSnapshot, older, rfl⟩ | ⟨notOlder, entries⟩ := unfinished_eq_some queued
  · rw [Persister.base_eq isSnapshot] at complete
    have offset := cursors.base snapshot isSnapshot
    refine .settled rfl ?_ nofun
    unfold Server.ReachedBy
    dsimp only
    omega
  · have offset := Persister.offset_eq cursors
    have applied : persister.base ≤ persister.logs.lai := by
      unfold Persister.base
      cases isSnapshot : persister.logs.snapshot with
      | none => simp [(cursors.fresh isSnapshot).2]
      | some snapshot => exact notOlder snapshot isSnapshot
    obtain ⟨done, rfl⟩ | ⟨batch, behind, rfl, window⟩ := unfinishedEntries_eq_some entries
    · refine .settled rfl ?_ nofun
      unfold Server.ReachedBy
      dsimp only
      omega
    · obtain ⟨-, -, length⟩ := length_of_slice? window
      have start : persister.logs.lci - batch.length = persister.base := by omega
      refine .settled (if_pos start) (.inl rfl) nofun

theorem noGap (ok : Covered sv history) : NoGap sv history := by
  cases ok with
  | settled upTo reaches =>
      refine ⟨_, upTo, fun _ => ?_⟩
      unfold Server.ReachedBy at reaches
      omega
  | installing upTo next =>
      refine ⟨_, upTo, fun idle => ?_⟩
      simp [idle] at next

end Covered

/-- A restart leaves no gap exactly if it starts from complete cursors. -/
theorem noGap_make_iff {persister : Persister α} {nextId me : Nat} {sv : Server α}
    {history : List (Obs α)} (cursors : persister.logs.Ok)
    (made : make persister nextId = some sv) :
    NoGap sv (sv.applier.reverse.map (.queued me) ++ [.restarted me persister.base] ++ history) ↔
      persister.Complete := by
  refine ⟨?_, fun complete => (Covered.make cursors complete made).noGap⟩
  rintro ⟨reached, upTo, reaches⟩
  obtain ⟨applier, -, queued, rfl⟩ := make_eq_some made
  specialize reaches rfl
  unfold Persister.Complete
  obtain ⟨snapshot, isSnapshot, older, rfl⟩ | ⟨notOlder, entries⟩ := unfinished_eq_some queued
  · cases upTo
    exact .inr (Persister.base_eq isSnapshot ▸ reaches)
  · obtain ⟨done, rfl⟩ | ⟨batch, behind, rfl, window⟩ := unfinishedEntries_eq_some entries
    · cases upTo
      exact .inr reaches
    · obtain ⟨-, -, length⟩ := length_of_slice? window
      simp only [covered, List.reverse_singleton, List.map_cons, List.map_nil, List.cons_append,
        List.nil_append, Option.bind_some, Option.mem_def, Option.ite_none_right_eq_some] at upTo
      exact .inl (by omega)

/-- The queue of every server is in order in every run whose restarts are
complete. -/
theorem Cluster.covered {cfg : Config} {labels : List (Label α)} {s : Cluster α}
    (run : Run (step cfg) restartsComplete init labels s) (i : Nat)
    (up : (s.servers i).up = true) : Covered (s.servers i) (s.history i) := by
  refine local_invariant (fun _ sv history => sv.up = true → Covered sv history) ?_ ?_ run i up
  · exact fun _ _ => .settled rfl (.inl rfl) nofun
  · intro _ s i act out earlier before complete steps isUp
    have cursors := cursorsOk earlier i
    cases steps with
    | popped up idle _ handles =>
        refine Covered.handles ?_ handles idle cursors.memory
        exact (before up).frame rfl rfl rfl rfl
    | executed up next executes => exact (before up).executes next executes
    | applied up applies => cases applies <;> exact (before up).frame rfl rfl rfl rfl
    | crashed => cases isUp
    | restarted _ made => exact .make cursors.disk.logs_ok complete made
    | _ => exact (before ‹_›).frame rfl rfl rfl rfl

/-- In every run whose restarts start from complete cursors, what is queued for the
service since the last start leaves no gap. -/
theorem noGap_of_restartsComplete {cfg : Config} {labels : List (Label α)} {s : Cluster α}
    (run : Run (Cluster.step cfg) restartsComplete Cluster.init labels s) (i : Nat)
    (up : (s.servers i).up = true) : NoGap (s.servers i) (s.history i) :=
  (Cluster.covered run i up).noGap

/-- The leader of the first commit crashes and delivers its log once more. -/
theorem noGap_firstCommit :
    ∃ s, Run (Cluster.step (.doubling 3)) restartsComplete Cluster.init
        (firstCommit ++ Label.all 0 [.crash, .restart]) s ∧
      (s.servers 0).logs.lci = 1 ∧ NoGap (s.servers 0) (s.history 0) := by
  obtain ⟨s, run, up, commit⟩ : ∃ s, Run (Cluster.step (.doubling 3)) restartsComplete
      Cluster.init (firstCommit ++ Label.all 0 [.crash, .restart]) s ∧
        (s.servers 0).up = true ∧ (s.servers 0).logs.lci = 1 :=
    Run.exists_of_runSteps (by decide +kernel)
  exact ⟨s, run, commit, noGap_of_restartsComplete run 0 up⟩

/-- The leader takes a snapshot of its first two entries and sends it to server 2;
a second command is committed and sent to server 2 too, which crashes before its
applier has delivered the snapshot. -/
def crashBeforeDelivery : List (Label Nat) :=
  firstCommit ++
  Label.all 0 [.snapshotCall 1 [1], .snapshotPush, .pop, .exec, .repl 1, .repl 1, .repl 1,
    .repl 1, .call 1] ++
  Label.all 2 [.pop, .receive 7, .pop, .exec] ++
  Label.all 0 [.receive 8, .repl 1, .repl 1, .repl 1, .repl 1, .repl 1, .call 1] ++
  Label.all 2 [.receive 9, .pop, .exec, .exec, .exec] ++
  Label.all 0 [.receive 10, .start (some 8), .pop, .exec, .exec, .repl 0, .repl 0, .repl 0,
    .call 0] ++
  Label.all 1 [.receive 11, .pop, .exec, .exec, .exec, .exec] ++
  Label.all 0 [.receive 12, .pop, .exec, .exec, .repl 1, .repl 1, .repl 1, .call 1] ++
  Label.all 2 [.receive 13, .pop, .exec, .exec, .exec, .exec, .crash, .restart]

/-- `newLogs` queues the snapshot that was not delivered and leaves out the entry
that was committed after it. -/
theorem restart_skips_committed :
    ∃ s, Run (Cluster.step (.doubling 3)) (fun _ _ => True) Cluster.init crashBeforeDelivery s ∧
      (s.servers 2).up = true ∧ (s.servers 2).logs.lci = 2 ∧ covered (s.history 2) = some 1 ∧
      ¬ NoGap (s.servers 2) (s.history 2) :=
  Run.exists_of_runSteps (by decide +kernel)

end GoLab.Raft
