import GoLab.MapReduce.ExactlyOnce

/-!
# The coordinator does not panic

A process asks for a task only when the record of its worker has none, and it reports a task
only when the record has one, or when there is no record any more.  The task in the record is
one of the present stage.  So none of the checks in `GetTask` and `FinishTask` fails, whatever
the order of the calls and whichever workers expire.
-/

namespace GoLab.MapReduce

/-- How far a process is with the coordinator. -/
inductive Phase where
  | outside
  | registering (id : WorkerID)
  | idle
  | working
  deriving DecidableEq, Repr

def Pc.phase : Pc → Phase
  | .start => .outside
  | .registering id => .registering id
  | .creating _ | .ready | .asking | .exited => .idle
  | .opening .. | .mapping .. | .listing _ | .collecting .. | .reduced _ => .working

/-- The record of a worker fits the phase of its process. -/
def Fits (job : Job) (proc : Process) : Prop :=
  match proc.pc.phase with
  | .outside | .registering _ => True
  | .idle => job.c.taskOf proc.workerInfo.workerID = none
  | .working => job.c.workers proc.workerInfo.workerID ≠ some ⟨none⟩

/-- What keeps the coordinator running. -/
structure Attended (files : List Str) (nReduce : Nat) (s : System) : Prop where
  running : s.job.panicked = false
  numbered : Numbered s.job
  conserved : Conserved files nReduce s.job
  claims : Claims s
  fits : ∀ proc ∈ s.procs, Fits s.job proc

section

variable {prog : Program} {files : List Str} {nReduce : Nat} {s s' : System}
  {proc proc' : Process} {p : Nat} {id : WorkerID} {label : Label} {reply : Option RpcReply}
  {job job' : Job} {alive : Bool} {info : WorkerInfo}

/-- A process has the number of its record unless it registers. -/
theorem Process.claims_of_phase (phase : proc.pc.phase = .idle ∨ proc.pc.phase = .working) :
    proc.claims = some proc.workerInfo.workerID := by
  obtain ⟨info, pc, alive⟩ := proc
  cases pc with
  | start | registering => rcases phase with phase | phase <;> cases phase
  | creating | ready | asking | opening | mapping | listing | collecting | reduced | exited => rfl

theorem Fits.of_phase (fits : Fits job proc) (info : proc'.workerInfo = proc.workerInfo)
    (phase : proc'.pc.phase = proc.pc.phase) : Fits job proc' := by
  unfold Fits
  rw [info, phase]
  exact fits

/-- A process still fits when its record is left alone or deleted. -/
theorem Fits.frame (fits : Fits job proc)
    (same : ∀ id, proc.claims = some id →
      job'.c.workers id = job.c.workers id ∨ job'.c.workers id = none) : Fits job' proc := by
  have isClaim := @Process.claims_of_phase proc
  unfold Fits at fits ⊢
  cases phase : proc.pc.phase with
  | outside | registering => trivial
  | idle =>
      rw [phase] at fits
      rcases same _ (isClaim (.inl phase)) with kept | gone
      · simp only [Coordinator.taskOf, kept]
        exact fits
      · simp [Coordinator.taskOf, gone]
  | working =>
      rw [phase] at fits
      rcases same _ (isClaim (.inr phase)) with kept | gone
      · simp only [kept]
        exact fits
      · simp [gone]

/-! ## A reported task is one of the stage -/

theorem Coordinator.acceptTask_map {c : Coordinator} {number : Nat} {file : Str}
    (stage : c.workingStage = .mapping) : (c.acceptTask (.map number file)).isSome := by
  simp only [Coordinator.acceptTask, stage, true_or, if_true]
  split <;> rfl

theorem Coordinator.acceptTask_reduce {c : Coordinator} {reduceID : ReduceID}
    (stage : c.workingStage = .reducing) : (c.acceptTask (.reduce reduceID)).isSome := by
  simp only [Coordinator.acceptTask, stage, true_or, if_true]
  split <;> rfl

/-- A task that a worker has is accepted. -/
theorem Conserved.accepts (conserved : Conserved files nReduce job) {task : Task}
    (holds : job.c.taskOf id = some task) : (job.c.acceptTask task).isSome := by
  have known := conserved.conserves.known task (.held holds)
  obtain ⟨-, -, notDone⟩ := (conserved.conserves.placed task known).of_held holds
  cases task with
  | map number file =>
      rcases conserved.mapping with isMapping | ⟨-, mapped⟩
      · exact Coordinator.acceptTask_map isMapping
      · exact (notDone (mapped _ (mem_mapTasks_of_released known))).elim
  | reduce reduceID =>
      rcases conserved.mapping with isMapping | ⟨isReducing | isDone, -⟩
      · rw [released, isMapping] at known
        exact (reduce_notMem_mapTasks known).elim
      · exact Coordinator.acceptTask_reduce isReducing
      · exact (notDone (conserved.done isDone _ (mem_reduceTasks_of_released known))).elim

/-- `FinishTask` of a worker that has no record or one with a task: the worker is without a
task afterwards. -/
theorem Job.finish_running (conserved : Conserved files nReduce job)
    (fits : job.c.workers id ≠ some ⟨none⟩)
    (executed : job.exec (.finish id) = some (job', reply)) :
    job'.panicked = job.panicked ∧ reply ≠ none ∧ job'.c.taskOf id = none := by
  simp only [Job.exec, Coordinator.finishTask] at executed
  rcases known : job.c.workers id with - | ⟨- | task⟩
  · simp only [known] at executed
    cases executed
    exact ⟨rfl, by simp, by simp [Coordinator.taskOf, known]⟩
  · exact (fits known).elim
  · have holds : job.c.taskOf id = some task := by simp [Coordinator.taskOf, known]
    obtain ⟨c, accepted⟩ := Option.isSome_iff_exists.mp (conserved.accepts holds)
    simp only [known, accepted, Option.map_some] at executed
    cases executed
    exact ⟨rfl, by simp, by simp [Coordinator.taskOf, Coordinator.setWorker]⟩

namespace Attended

/-! ## Steps -/

section

variable (attended : Attended files nReduce s)
include attended

/-- A process goes on by itself. -/
theorem internal (found : s.procs[p]? = some proc) (job : s'.job = s.job)
    (procs : s'.procs = s.procs.set p proc') (info : proc'.workerInfo = proc.workerInfo)
    (phase : proc'.pc.phase = proc.pc.phase) (claims : proc'.claims = proc.claims) :
    Attended files nReduce s' := by
  have isProc := List.mem_of_getElem? found
  refine ⟨job ▸ attended.running, job ▸ attended.numbered, job ▸ attended.conserved, ?_, ?_⟩
  · refine attended.claims.moved found procs (Nat.le_of_eq (by rw [job])) fun id isClaim => .inl ?_
    exact claims ▸ isClaim
  · rw [job, procs]
    intro other isOther
    rcases List.mem_or_eq_of_mem_set isOther with old | rfl
    · exact attended.fits other old
    · exact (attended.fits proc isProc).of_phase info phase

/-- A process calls the coordinator. -/
theorem called (found : s.procs[p]? = some proc) (moved : Moves s.job label job' reply)
    (few : fewWorkers s.job label) (own : ∀ id, label.worker = some id → proc.claims = some id)
    (running : job'.panicked = false) (fits : Fits job' proc')
    (grown : ∀ id, proc'.claims = some id → proc.claims = some id ∨
      s.job.c.workerIDAcc.toNat < id.toNat ∧ id.toNat ≤ job'.c.workerIDAcc.toNat) :
    Attended files nReduce (({ s with job := job' } : System).setProc p proc') := by
  refine ⟨running, attended.numbered.moves few moved,
    attended.conserved.numbered_moves attended.numbered moved,
    attended.claims.moved found rfl (moved.acc few) grown, fun other isOther => ?_⟩
  obtain ⟨q, here⟩ := List.mem_iff_getElem?.mp isOther
  rcases getElem?_set_cases here with ⟨-, rfl⟩ | ⟨differs, here⟩
  · exact fits
  · refine (attended.fits other (List.mem_of_getElem? here)).frame fun id isClaim => .inl ?_
    refine (moved.undisturbed fun isWorker => ?_).2.1
    exact (attended.claims.others found (fun id again => (grown id again).imp_right And.left)
      differs here isClaim).1 (own id isWorker)

theorem act_start (found : s.procs[p]? = some ⟨info, .start, alive⟩)
    (few : s.job.c.workerIDAcc.toNat + 1 < 2 ^ 16)
    (taken : s.act prog p ⟨info, .start, alive⟩ = some s') : Attended files nReduce s' := by
  obtain ⟨⟨next, reply⟩, called, rfl⟩ := Option.map_eq_some_iff.mp taken
  obtain ⟨job', moved, rfl⟩ := System.call_eq_some called
  obtain ⟨newID, newAcc⟩ := Numbered.newWorkerID_toNat few
  cases moved
  refine attended.called found .register few nofun attended.running trivial ?_
  rintro id ⟨⟩
  exact .inr ⟨by omega, Nat.le_of_eq (newID.trans newAcc.symm)⟩

theorem act_registering {newID : WorkerID}
    (found : s.procs[p]? = some ⟨info, .registering newID, alive⟩)
    (taken : s.act prog p ⟨info, .registering newID, alive⟩ = some s') :
    Attended files nReduce s' := by
  obtain ⟨⟨next, reply⟩, called, result⟩ := Option.bind_eq_some_iff.mp taken
  obtain ⟨job', moved, rfl⟩ := System.call_eq_some called
  cases moved with
  | add inside =>
      cases result
      refine attended.called found (.add inside) trivial (fun _ same => same) attended.running ?_
        fun _ isClaim => .inl isClaim
      simp [Fits, Pc.phase, Coordinator.taskOf, Coordinator.addWorker, Coordinator.setWorker]

theorem act_ready (found : s.procs[p]? = some ⟨info, .ready, alive⟩)
    (taken : s.act prog p ⟨info, .ready, alive⟩ = some s') : Attended files nReduce s' := by
  obtain ⟨⟨next, reply⟩, called, rfl⟩ := Option.map_eq_some_iff.mp taken
  obtain ⟨job', moved, rfl⟩ := System.call_eq_some called
  have free := attended.fits _ (List.mem_of_getElem? found)
  cases moved with
  | noMoreTask done =>
      exact attended.called found (.noMoreTask done) trivial (fun _ same => same) attended.running
        free fun _ isClaim => .inl isClaim
  | ask notDone =>
      exact attended.called found (.ask notDone) trivial (fun _ same => same) attended.running
        free fun _ isClaim => .inl isClaim

theorem act_asking (found : s.procs[p]? = some ⟨info, .asking, alive⟩)
    (taken : s.act prog p ⟨info, .asking, alive⟩ = some s') : Attended files nReduce s' := by
  obtain ⟨⟨next, reply⟩, called, rfl⟩ := Option.map_eq_some_iff.mp taken
  obtain ⟨job', moved, rfl⟩ := System.call_eq_some called
  have free : s.job.c.taskOf info.workerID = none :=
    attended.fits _ (List.mem_of_getElem? found)
  cases moved with
  | takeInvalid inside unknown =>
      exact attended.called found (.takeInvalid inside unknown) trivial (fun _ same => same)
        attended.running trivial nofun
  | takePanic inside busy => simp [Coordinator.taskOf, busy] at free
  | takeNoop inside idle empty =>
      exact attended.called found (.takeNoop inside idle empty) trivial (fun _ same => same)
        attended.running free fun _ isClaim => .inl isClaim
  | @take _ task rest inside idle first =>
      have moved : Moves s.job _ _ _ := .take inside idle first
      cases task with
      | map number file =>
          refine attended.called found moved trivial (fun _ same => same) attended.running ?_
            fun _ isClaim => .inl isClaim
          simp [Fits, Pc.phase, Coordinator.setWorker]
      | reduce reduceID =>
          refine attended.called found moved trivial (fun _ same => same) attended.running ?_
            fun _ isClaim => .inl isClaim
          simp [Fits, Pc.phase, Coordinator.setWorker]

/-- `FinishTask`, when the process goes on with `GetTask`. -/
theorem finish (found : s.procs[p]? = some proc) (working : proc.pc.phase = .working)
    (taken : ((s.call (.finish proc.workerInfo.workerID)).map fun (s', reply) =>
      match reply with
      | none => s'
      | some _ => s'.setProc p { proc with pc := .ready }) = some s') :
    Attended files nReduce s' := by
  obtain ⟨⟨next, reply⟩, called, rfl⟩ := Option.map_eq_some_iff.mp taken
  obtain ⟨job', executed, rfl⟩ := System.call_exec called
  have fits := attended.fits proc (List.mem_of_getElem? found)
  rw [Fits, working] at fits
  obtain ⟨running, answered, free⟩ := Job.finish_running attended.conserved fits executed
  have isClaim : proc.claims = some proc.workerInfo.workerID :=
    Process.claims_of_phase (.inr working)
  cases reply with
  | none => exact (answered rfl).elim
  | some reply =>
      refine attended.called found (Job.exec_moves executed) trivial (fun id same => ?_)
        (running.trans attended.running) free fun id again => .inl (isClaim.trans again)
      exact isClaim.trans same

theorem act (found : s.procs[p]? = some proc)
    (few : proc.pc = .start → s.job.c.workerIDAcc.toNat + 1 < 2 ^ 16)
    (taken : s.act prog p proc = some s') : Attended files nReduce s' := by
  obtain ⟨info, pc, alive⟩ := proc
  cases pc with
  | start => exact attended.act_start found (few rfl) taken
  | registering newID => exact attended.act_registering found taken
  | ready => exact attended.act_ready found taken
  | asking => exact attended.act_asking found taken
  | reduced rid => exact attended.finish found rfl taken
  | creating next =>
      simp only [System.act] at taken
      split at taken <;> cases taken <;> exact attended.internal found rfl rfl rfl rfl rfl
  | opening number file =>
      simp only [System.act] at taken
      split at taken <;> cases taken <;> exact attended.internal found rfl rfl rfl rfl rfl
  | mapping number file past todo =>
      cases todo with
      | nil => exact attended.finish found rfl taken
      | cons op todo =>
          simp only [System.act] at taken
          split at taken <;> cases taken <;> exact attended.internal found rfl rfl rfl rfl rfl
  | collecting rid rest pos got =>
      cases rest with
      | nil =>
          cases taken
          exact attended.internal found rfl rfl rfl rfl rfl
      | cons file rest =>
          simp only [System.act] at taken
          split at taken
          case h_1 =>
            cases taken
            exact attended.internal found rfl rfl rfl rfl rfl
          case h_2 =>
            split at taken <;> cases taken <;> exact attended.internal found rfl rfl rfl rfl rfl
  | listing rid => cases taken
  | exited => cases taken

/-- A worker is removed. -/
theorem expire (moved : Moves s.job (.expire id) job' reply) :
    Attended files nReduce { s with job := job' } := by
  obtain ⟨gone, -, -, acc⟩ := moved.expired
  have anyNumber : fewWorkers s.job (.expire id) := trivial
  refine ⟨?_, attended.numbered.moves anyNumber moved,
    attended.conserved.numbered_moves attended.numbered moved, ?_, ?_⟩
  · cases moved with
    | expireNobody | expireIdle | expireBusy => exact attended.running
  · exact ⟨attended.claims.apart, acc ▸ attended.claims.bounded⟩
  · refine fun proc isProc => (attended.fits proc isProc).frame fun other _ => ?_
    by_cases here : other = id
    · exact .inr (here ▸ gone)
    · refine .inl (moved.undisturbed fun same => here ?_).2.1
      exact (Option.some.inj same).symm

theorem step {action : Action} (few : fewProcesses s action)
    (taken : System.step prog action s = some s') :
    Attended files nReduce s' := by
  cases action with
  | advance p =>
      obtain ⟨proc, found, acted⟩ := Option.bind_eq_some_iff.mp taken
      split at acted
      case isTrue => exact attended.act found (few proc found) acted
      case isFalse => cases acted
  | list p listed =>
      obtain ⟨⟨info, pc, alive⟩, found, acted⟩ := Option.bind_eq_some_iff.mp taken
      split at acted
      case h_1 rid isAlive isPc =>
        cases isPc
        split at acted
        case isTrue =>
          cases acted
          exact attended.internal found rfl rfl rfl rfl rfl
        case isFalse => cases acted
      case h_2 => cases acted
  | expire id =>
      obtain ⟨⟨next, reply⟩, called, rfl⟩ := Option.map_eq_some_iff.mp taken
      obtain ⟨job', moved, rfl⟩ := System.call_eq_some called
      exact attended.expire moved
  | crash p =>
      obtain ⟨proc, found, rfl⟩ := Option.map_eq_some_iff.mp taken
      exact attended.internal found rfl rfl rfl rfl rfl

end

theorem init (few : files.length < 2 ^ 16) (processes : Nat) :
    Attended files nReduce (System.init files nReduce processes) := by
  have starting (proc : Process) (isProc : proc ∈ (System.init files nReduce processes).procs) :
      proc = ⟨⟨0, 0⟩, .start, true⟩ := (List.mem_replicate.mp isProc).2
  refine ⟨rfl, .init, .init few, ⟨?_, ?_⟩, fun proc isProc => ?_⟩
  · intro p q proc proc' id found _ isClaim
    rw [starting proc (List.mem_of_getElem? found)] at isClaim
    cases isClaim
  · intro proc isProc id isClaim
    rw [starting proc isProc] at isClaim
    cases isClaim
  · rw [starting proc isProc]
    trivial

end Attended

/-- The coordinator does not panic: in every state of every run of any number of workers with
fewer than `2 ^ 16` files and registrations. -/
theorem coordinator_never_panics {labels : List Action} {processes : Nat}
    (fewFiles : files.length < 2 ^ 16)
    (run : Run (System.step prog) fewProcesses (System.init files nReduce processes) labels s) :
    s.job.panicked = false := by
  have attended : Attended files nReduce s := by
    refine run.invariant (fun _ s => Attended files nReduce s) (.init fewFiles processes) ?_
    intro labels s action s' _ attended few taken
    exact attended.step few taken
  exact attended.running

end

/-- A worker is removed before it reports its map task, and reports it all the same. -/
theorem coordinator_never_panics_reportedLate :
    ∃ s, Run (System.step ⟨letters, some, id⟩) fewProcesses (System.init [[97]] 1 2)
        (List.replicate 9 (.advance 0) ++ [.expire 1, .advance 0]) s ∧
      s.job.c.workers 1 = none ∧ s.job.panicked = false := by
  obtain ⟨s, run, gone⟩ :
      ∃ s, Run (System.step ⟨letters, some, id⟩) fewProcesses (System.init [[97]] 1 2)
          (List.replicate 9 (.advance 0) ++ [.expire 1, .advance 0]) s ∧
        s.job.c.workers 1 = none :=
    Run.exists_of_runSteps (by decide +kernel)
  exact ⟨s, run, gone, coordinator_never_panics (by decide) run⟩

end GoLab.MapReduce
