import GoLab.MapReduce.Stages

/-!
# The numbers of the workers

A worker is numbered by the lower half of a 32-bit counter, and nothing looks whether the
number is in use.  A registration with a number in use replaces the record of a worker that
may have a task, and the task is lost.
-/

namespace GoLab.MapReduce

section

variable {files : List Str} {nReduce : Nat} {job job' : Job} {label : Label}
  {reply : Option RpcReply} {labels : List Label} {id : WorkerID} {task : Task}

/-- A step that replaces no record with a task leaves a held task with its worker, in the
queue, or accepted. -/
theorem Moves.held (moved : Moves job label job' reply) (keeps : keepsTasks job label)
    (holds : job.c.taskOf id = some task) :
    job'.c.taskOf id = some task ∨ task ∈ job'.c.tasks ∨ (id, task) ∈ job'.accepted := by
  have other {id' : WorkerID} {worker : Option CWorker} (differs : id ≠ id') :
      (job.c.setWorker id' worker).taskOf id = some task := by
    rw [taskOf_setWorker, Custody.update_of_ne differs]
    exact holds
  cases moved with
  | register | noMoreTask | ask | takeInvalid | takePanic | takeNoop | finishInvalid
  | finishPanic | heartBeat | expireNobody => exact .inl holds
  | @add id' inside =>
      by_cases here : id = id'
      · subst here
        cases keeps.symm.trans holds
      · exact .inl (other here)
  | @take id' task' rest inside idle first =>
      by_cases here : id = id'
      · subst here
        simp [Coordinator.taskOf, idle] at holds
      · exact .inl (other here)
  | @finish id' task' c busy accepts =>
      by_cases here : id = id'
      · subst here
        have same : task' = task := by simpa [Coordinator.taskOf, busy] using holds
        exact .inr (.inr (by simp [same]))
      · left
        have kept := @other id' (some ⟨none⟩) here
        unfold Coordinator.taskOf Coordinator.setWorker at kept ⊢
        rw [accepts.frame.1]
        exact kept
  | @expireIdle id' idle =>
      by_cases here : id = id'
      · subst here
        simp [Coordinator.taskOf, idle] at holds
      · exact .inl (other here)
  | @expireBusy id' task' busy =>
      by_cases here : id = id'
      · subst here
        have same : task' = task := by simpa [Coordinator.taskOf, busy] using holds
        exact .inr (.inl (by simp [same]))
      · exact .inl (other here)

theorem Job.distinct (run : Run Job.step fewWorkers (Job.init files nReduce) labels job) :
    Distinct job := by
  have numbered : Numbered job := by
    refine run.invariant (fun _ job => Numbered job) .init ?_
    intro labels job label job' _ numbered few taken
    obtain ⟨reply, moved⟩ := Job.step_moves taken
    exact numbered.moves few moved
  exact numbered.distinct

/-- With fewer than `2 ^ 16` registrations a worker is added under the number of no other, and
no step loses a task that a registered worker has. -/
theorem worker_ids_distinct
    (run : Run Job.step fewWorkers (Job.init files nReduce) labels job) :
    job.registering.Nodup ∧ (∀ id ∈ job.registering, job.c.workers id = none) ∧
      ∀ label job', Job.step label job = some job' → ∀ id task, job.c.taskOf id = some task →
        job'.c.taskOf id = some task ∨ task ∈ job'.c.tasks ∨ (id, task) ∈ job'.accepted := by
  have distinct := Job.distinct run
  refine ⟨distinct.once, distinct.unknown, fun label job' taken id task holds => ?_⟩
  obtain ⟨reply, moved⟩ := Job.step_moves taken
  exact moved.held (distinct.keepsTasks moved) holds

end

/-- Two workers register at the same time while a third one has a task. -/
theorem worker_ids_distinct_twoMore :
    ∃ job, Run Job.step fewWorkers (Job.init [[97]] 1)
        [.register, .add 1, .ask 1, .take 1, .register, .register] job ∧
      job.registering = [2, 3] ∧ job.registering.Nodup := by
  obtain ⟨job, run, registering⟩ := @Run.exists_of_runSteps _ _ Job.step fewWorkers
    (Job.init [[97]] 1) _ (fun job => job.registering = [2, 3])
    [.register, .add 1, .ask 1, .take 1, .register, .register] (by decide +kernel)
  exact ⟨job, run, registering, (worker_ids_distinct run).1⟩

/-! ## A number in use is given out -/

theorem Coordinator.removeWorker_addWorker {c : Coordinator} {id : WorkerID}
    (unknown : c.workers id = none) : (c.addWorker id).removeWorker id = c := by
  have known : (c.addWorker id).workers id = some ⟨none⟩ := if_pos rfl
  unfold Coordinator.removeWorker
  rw [known]
  have workers : (fun other => if other = id then none else (c.addWorker id).workers other) =
      c.workers := by
    funext other
    by_cases here : other = id
    · simp [here, unknown]
    · simp [Coordinator.addWorker, Coordinator.setWorker, here]
  exact congrArg (fun workers => { c with workers }) workers

/-- The counter of the workers has moved on. -/
def Job.counting (job : Job) (n : Nat) : Job :=
  { job with c := { job.c with workerIDAcc := job.c.workerIDAcc + UInt32.ofNat n } }

section

variable {job : Job} {n : Nat}

theorem Job.counting_toNat (few : job.c.workerIDAcc.toNat + n < 2 ^ 16) :
    (job.counting n).c.workerIDAcc.toNat = job.c.workerIDAcc.toNat + n := by
  show (job.c.workerIDAcc + UInt32.ofNat n).toNat = _
  rw [UInt32.toNat_add, UInt32.toNat_ofNat']
  omega

theorem Numbered.counting (numbered : Numbered job)
    (few : job.c.workerIDAcc.toNat + n < 2 ^ 16) : Numbered (job.counting n) := by
  have acc := Job.counting_toNat few
  refine ⟨acc ▸ few, fun id known => ?_, fun id pending => ?_, numbered.once⟩
  · obtain ⟨atMost, notPending⟩ := numbered.added id known
    exact ⟨by omega, notPending⟩
  · have atMost := numbered.pending id pending
    omega

/-- A worker registers and expires, and only the counter has moved. -/
theorem Job.come_and_go (numbered : Numbered job) (running : job.panicked = false)
    (few : job.c.workerIDAcc.toNat + 1 < 2 ^ 16) :
    runSteps Job.step (fun _ _ => True)
      [.register, .add job.c.newWorkerID, .expire job.c.newWorkerID] job =
      some (job.counting 1) := by
  obtain ⟨notPending, unknown⟩ := @Numbered.freshID job .register numbered few
  have erased : (job.registering ++ [job.c.newWorkerID]).erase job.c.newWorkerID =
      job.registering := by
    rw [List.erase_append_right _ notPending, List.erase_cons_head, List.append_nil]
  have gone : (job.c.countWorker.addWorker job.c.newWorkerID).removeWorker job.c.newWorkerID =
      job.c.countWorker := Coordinator.removeWorker_addWorker unknown
  have moved : job.counting 1 = ⟨job.c.countWorker, false, job.registering, job.asking,
      job.accepted⟩ := by
    rw [← running]
    rfl
  simp [runSteps, Job.step, Job.exec, running, erased, gone, moved]

/-- Workers register and expire one after another. -/
theorem Job.many_come_and_go (numbered : Numbered job) (running : job.panicked = false)
    (few : job.c.workerIDAcc.toNat + n < 2 ^ 16) :
    ∃ labels, Run Job.step (fun _ _ => True) job labels (job.counting n) := by
  induction n with
  | zero =>
      have same : job.counting 0 = job := by simp [Job.counting]
      rw [same]
      exact ⟨[], .start⟩
  | succ n ih =>
      obtain ⟨labels, run⟩ := ih (by omega)
      have acc := @Job.counting_toNat job n (by omega)
      have next := @Job.come_and_go (job.counting n) (numbered.counting (by omega)) running
        (by omega)
      have sum : (job.counting n).counting 1 = job.counting (n + 1) := by
        simp only [Job.counting, UInt32.ofNat_add, UInt32.add_assoc]
      rw [sum] at next
      exact ⟨_, run.append_runSteps next⟩

end

/-- When the counter stands at 65535, the two next workers get the numbers 0 and 1, and the
second one replaces worker 1. -/
theorem Job.replaced {job : Job} (running : job.panicked = false)
    (nobody : job.registering = []) (acc : job.c.workerIDAcc = 65535)
    (queue : job.c.tasks = []) (free : ∀ id, id ≠ 1 → job.c.taskOf id = none) :
    ∃ before after, runSteps Job.step (fun _ _ => True) [.register, .register] job = some before ∧
      before.c.taskOf = job.c.taskOf ∧ Job.step (.add 1) before = some after ∧
      ¬after.c.HasWork ∧ after.accepted = job.accepted := by
  have first : job.c.newWorkerID = 0 := by
    rw [Coordinator.newWorkerID, acc]
    decide
  have second : job.c.countWorker.newWorkerID = 1 := by
    simp only [Coordinator.newWorkerID, Coordinator.countWorker, acc]
    decide
  refine ⟨⟨job.c.countWorker.countWorker, false, [0, 1], job.asking, job.accepted⟩, _, ?_, rfl,
    rfl, ?_, rfl⟩
  · simp [runSteps, Job.step, Job.exec, running, nobody, first, second]
  · rintro (queued | ⟨id, busy⟩)
    · exact queued queue
    · by_cases here : id = 1
      · subst here
        exact busy rfl
      · refine busy (Eq.trans ?_ (free id here))
        simp [Coordinator.taskOf, Coordinator.addWorker, Coordinator.setWorker,
          Coordinator.countWorker, here]

/-- Worker 1 has the only task when, after 65534 workers that came and went, the two next
ones get the numbers 0 and 1.  Adding the second one drops the task: nobody has it, and it is
neither in the queue nor accepted. -/
theorem live_worker_replaced :
    ∃ labels job job', Run Job.step (fun _ _ => True) (Job.init [[97]] 1) labels job ∧
      job.c.taskOf 1 = some (.map 0 [97]) ∧ Job.step (.add 1) job = some job' ∧
      ¬job'.c.HasWork ∧ job'.accepted = [] := by
  obtain ⟨job, run, acc, running, nobody, holds, queue, accepted, isReleased⟩ :=
    @Run.exists_of_runSteps _ _ Job.step fewWorkers (Job.init [[97]] 1) _
      (fun job => job.c.workerIDAcc = 1 ∧ job.panicked = false ∧ job.registering = [] ∧
        job.c.taskOf 1 = some (.map 0 [97]) ∧ job.c.tasks = [] ∧ job.accepted = [] ∧
        released [[97]] job.c = [.map 0 [97]])
      [.register, .add 1, .ask 1, .take 1] (by decide +kernel)
  obtain ⟨numbered, conserved⟩ := Job.conserved (by decide) run
  have free (id : WorkerID) (differs : id ≠ 1) : job.c.taskOf id = none := by
    refine Decidable.byContradiction fun busy => ?_
    obtain ⟨task, holds'⟩ := Option.ne_none_iff_exists'.mp busy
    have known := conserved.conserves.known task (.held holds')
    have place := conserved.conserves.placed task known
    rw [isReleased, List.mem_singleton] at known
    subst known
    exact differs ((place.of_held holds).1 id holds')
  obtain ⟨n, many⟩ : ∃ n, job.c.workerIDAcc.toNat + n = 65535 := ⟨65534, by rw [acc]; rfl⟩
  have few : job.c.workerIDAcc.toNat + n < 2 ^ 16 := by omega
  obtain ⟨later, onward⟩ := Job.many_come_and_go numbered running few
  have counted : (job.counting n).c.workerIDAcc = 65535 := by
    rw [← UInt32.toNat_inj, Job.counting_toNat few, many]
    rfl
  obtain ⟨before, after, twoMore, same, added, stuck, noneAccepted⟩ :=
    @Job.replaced (job.counting n) running nobody counted queue free
  have begun := (run.mono fun _ _ _ => trivial).append onward
  exact ⟨_, before, after, begun.append_runSteps twoMore, (congrFun same 1).trans holds, added,
    stuck, noneAccepted.trans accepted⟩

end GoLab.MapReduce
